import SecureHome.File.Deinit
import SecureHome.Gsm.Protected

open Teardown

-- The drivers that `deinit` takes down while other tasks may be using them.
namespace Drivers

variable {τ : Type} [DecidableEq τ]

-- While no task is between its check and its taking of the mutex when `deinit` gives the mutex back, no
-- task makes its check before `deinit` resets the flag, and no access to the flash fails while the files
-- are closed, what a call is about exists whenever it uses it.
theorem protected_of_smooth {allowed : File.Call → Bool} {flash : File.Flash} {driver : Gsm.State τ}
    {os : List (Occurrence File.sig τ File.Call File.LfsError)} {p : Pool File.sig τ (File.State τ)}
    {os' : List (Occurrence Gsm.Deinit.sig τ Gsm.Deinit.Call (Gsm.Event τ))}
    {p' : Pool Gsm.Deinit.sig τ (Gsm.Deinit.State τ)}
    (h : (File.system τ allowed).History .any (.idle (.init flash)) os p)
    (ho : File.usage.Orderly os)
    (h' : (Gsm.Deinit.system τ).History .any (.idle (.initialized driver)) os' p')
    (ho' : Gsm.Deinit.usage.Orderly os') :
    Protected File.usage.tears File.State.Permits os p ∧
      Protected Gsm.Deinit.usage.tears Gsm.Deinit.State.Permits os' p' :=
  ⟨File.protected_of_orderly h ho, Gsm.Deinit.protected_of_orderly h' ho'⟩

def flash : File.Flash where
  bytes _ := []
  size _  := Nat.zero_le _

def fileSystem : System File.sig Bool File.Call File.LfsError (File.State Bool) :=
  File.system Bool fun _ => true

abbrev FileLabel :=
  Pool.Label Bool File.Call File.LfsError

abbrev GsmLabel :=
  Pool.Label Bool Gsm.Deinit.Call (Gsm.Event Bool)

-- A task that uses the module is done before the other one takes it down.
def fileRun : List FileLabel :=
  .call false (.write .password [1] 0) :: List.replicate 17 (.op false 0) ++
    .call true .deinit :: List.replicate 30 (.op true 0) ++
    .call false (.write .password [1] 0) :: List.replicate 3 (.op false 0)

-- The request to the module of a call that holds the mutex is timed out.
def gsmRun : List GsmLabel :=
  .call false .getImsi :: List.replicate 7 (.op false 0) ++
    .event (.expire false) :: List.replicate 7 (.op false 0) ++
    .call true .deinit :: List.replicate 7 (.op true 0) ++
    .event (.expire true) :: List.replicate 16 (.op true 0)

theorem protected_of_smooth_inTurn :
    ∃ (os : List (Occurrence File.sig Bool File.Call File.LfsError))
      (p : Pool File.sig Bool (File.State Bool))
      (os' : List (Occurrence Gsm.Deinit.sig Bool Gsm.Deinit.Call (Gsm.Event Bool)))
      (p' : Pool Gsm.Deinit.sig Bool (Gsm.Deinit.State Bool)),
      (p.shared.mutex = .deleted ∧ p'.shared.handle = .zeroed) ∧
        Protected File.usage.tears File.State.Permits os p ∧
        Protected Gsm.Deinit.usage.tears Gsm.Deinit.State.Permits os' p' := by
  have ⟨os, p, h, hq⟩ := System.History.exists_of_record fileSystem (.idle (.init flash))
    (fun os p => decide (p.shared.mutex = .deleted ∧ File.usage.Orderly os)) fileRun (by decide +kernel)
  have ⟨os', p', h', hq'⟩ := System.History.exists_of_record (Gsm.Deinit.system Bool)
    (.idle (.initialized (.init fun _ => none)))
    (fun os p => decide (p.shared.handle = .zeroed ∧ Gsm.Deinit.usage.Orderly os)) gsmRun (by decide +kernel)
  have hq := of_decide_eq_true hq
  have hq' := of_decide_eq_true hq'
  exact ⟨os, p, os', p', ⟨hq.left, hq'.left⟩, protected_of_smooth h hq.right h' hq'.right⟩

-- A task that has made its check waits for the mutex while `deinit` closes the files. It gets the mutex
-- before `deinit` deletes it, and finds its file closed.
def closedFileRun : List FileLabel :=
  [.call false (.write .password [1] 0), .op false 0, .op false 0] ++
    .call true .deinit :: List.replicate 22 (.op true 0) ++ [.op false 0]

-- A task that has made its check is about to take the mutex when `deinit` is done.
def deletedMutexRun : List GsmLabel :=
  [.call false .getImsi, .op false 0] ++ .call true .deinit :: List.replicate 7 (.op true 0) ++
    .event (.expire true) :: List.replicate 16 (.op true 0)

theorem not_protected :
    (∃ os p, fileSystem.History .any (.idle (.init flash)) os p ∧
      ¬Protected File.usage.tears File.State.Permits os p) ∧
    ∃ os p, (Gsm.Deinit.system Bool).History .any (.idle (.initialized (.init fun _ => none))) os p ∧
      ¬Protected Gsm.Deinit.usage.tears Gsm.Deinit.State.Permits os p := by
  constructor
  case left =>
    have ⟨os, p, h, ht⟩ := System.History.exists_of_record fileSystem (.idle (.init flash))
      (touches File.usage.tears File.State.Permits false) closedFileRun (by decide +kernel)
    exact ⟨os, p, h, not_protected_of_touches ht⟩
  case right =>
    have ⟨os, p, h, ht⟩ := System.History.exists_of_record (Gsm.Deinit.system Bool)
      (.idle (.initialized (.init fun _ => none)))
      (touches Gsm.Deinit.usage.tears Gsm.Deinit.State.Permits false) deletedMutexRun (by decide +kernel)
    exact ⟨os, p, h, not_protected_of_touches ht⟩

end Drivers
