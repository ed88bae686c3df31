import SecureHome.Ascon.Snp
import Mathlib.Data.Nat.Notation
import Mathlib.Tactic.Common

namespace Ascon

def xofRate  := 8
def hashSize := 32

-- The fields besides the state of the permutation. The mode is set while squeezing.
structure XofState where
  count : ℕ
  mode  : Bool

def xofInit : Prog snp XofState := do
  Snp.call (.initTable .xof)
  return { count := 0, mode := false }

-- The first block encodes the output length in bits.
def xofIv (outlen : ℕ) : BitVec 64 :=
  0x00400c0000000000 ||| .ofNat 64 (outlen * 8)

def xofLimit (outlen : ℕ) : ℕ :=
  if outlen ≥ 1 <<< 29 then 0 else outlen

def beStoreWord64 (x : BitVec 64) : List UInt8 :=
  (List.range 8).map fun k => .ofBitVec ((x >>> (56 - 8 * k)).setWidth 8)

def xofInitFixed (outlen : ℕ) : Prog snp XofState := do
  let outlen := xofLimit outlen
  if outlen = 0 then
    xofInit
  else if outlen = 32 then
    Snp.call (.initTable .hash)
    return { count := 0, mode := false }
  else
    Snp.call .init
    Snp.call (.overwriteBytes (beStoreWord64 (xofIv outlen)) 0)
    Snp.call (.permute 0)
    return { count := 0, mode := false }

-- The loop over full blocks and what follows it.
def xofAbsorbBlocks (state : XofState) (input : List UInt8) : Prog snp XofState := do
  if input.length ≥ xofRate then
    Snp.call (.absorb8 (input.take xofRate) 0)
    Snp.call (.permute 0)
    xofAbsorbBlocks state (input.drop xofRate)
  else
    if input.length > 0 then
      Snp.call (.addBytes input 0)
    return { state with count := input.length }
termination_by input.length
decreasing_by
  simp [xofRate] at *
  omega

-- The left-over block from the last time comes first.
def xofAbsorbRest (state : XofState) (input : List UInt8) : Prog snp XofState := do
  if state.count ≠ 0 then
    let temp := xofRate - state.count
    if temp > input.length then
      Snp.call (.addBytes input state.count)
      return { state with count := state.count + input.length }
    else
      Snp.call (.addBytes (input.take temp) state.count)
      Snp.call (.permute 0)
      xofAbsorbBlocks { state with count := 0 } (input.drop temp)
  else
    xofAbsorbBlocks state input

def xofAbsorb (state : XofState) (input : List UInt8) : Prog snp XofState := do
  if state.mode then
    Snp.call (.permute 0)
    xofAbsorbRest { count := 0, mode := false } input
  else
    xofAbsorbRest state input

def xofSqueezeBlocks (state : XofState) (outlen : ℕ) : Prog snp (List UInt8 × XofState) := do
  if outlen ≥ xofRate then
    Snp.call (.permute 0)
    let out : List UInt8 ← Snp.call (.squeeze8 0)
    let r ← xofSqueezeBlocks state (outlen - xofRate)
    return (out ++ r.1, r.2)
  else if outlen > 0 then
    Snp.call (.permute 0)
    let out : List UInt8 ← Snp.call (.extractBytes 0 outlen)
    return (out, { state with count := outlen })
  else
    return ([], state)
termination_by outlen
decreasing_by
  simp [xofRate] at *
  omega

def xofSqueezeRest (state : XofState) (outlen : ℕ) : Prog snp (List UInt8 × XofState) := do
  if state.count ≠ 0 then
    let temp := xofRate - state.count
    if temp > outlen then
      let out : List UInt8 ← Snp.call (.extractBytes state.count outlen)
      return (out, { state with count := state.count + outlen })
    else
      let out : List UInt8 ← Snp.call (.extractBytes state.count temp)
      let r ← xofSqueezeBlocks { state with count := 0 } (outlen - temp)
      return (out ++ r.1, r.2)
  else
    xofSqueezeBlocks state outlen

def xofSqueeze (state : XofState) (outlen : ℕ) : Prog snp (List UInt8 × XofState) := do
  if state.mode then
    xofSqueezeRest state outlen
  else
    Snp.call (.pad state.count)
    xofSqueezeRest { count := 0, mode := true } outlen

def xofPad (state : XofState) : Prog snp XofState := do
  if state.mode then
    xofAbsorb state []
  else if state.count ≠ 0 then
    Snp.call (.permute 0)
    return { state with count := 0 }
  else
    return state

def xofAbsorbCustom (state : XofState) (custom : List UInt8) : Prog snp XofState := do
  if custom.length > 0 then
    let state ← xofAbsorb state custom
    Snp.call (.pad state.count)
    Snp.call (.permute 0)
    Snp.call .separator
    return { state with count := 0 }
  else
    return state

-- The name without its terminator, which is empty for the null pointer. It is padded with zeroes, or
-- hashed when it is too long.
def xofFunctionName (functionName : List UInt8) : Prog snp (List UInt8) := do
  let len := functionName.length
  if len = 0 then
    return .replicate hashSize 0
  else if len ≤ 32 then
    return functionName ++ .replicate (hashSize - len) 0
  else
    let state ← xofInitFixed hashSize
    let state ← xofAbsorb state functionName
    let r ← xofSqueeze state hashSize
    return r.1

def xofInitCustom (functionName custom : List UInt8) (outlen : ℕ) : Prog snp XofState := do
  let outlen := xofLimit outlen
  let temp ← xofFunctionName functionName
  Snp.call .init
  Snp.call (.overwriteBytes temp 8)
  Snp.call (.overwriteBytes (beStoreWord64 (xofIv outlen)) 0)
  Snp.call (.permute 0)
  xofAbsorbCustom { count := 0, mode := false } custom

end Ascon
