import Z4jCelery.Lib.Queue
/-!
# Reading a source that changes

A source changes at any time, also while it is read. Each report of changes
schedules a scan of its own; scans run one after another, and none starts in the
middle of another. Once all changes are reported and all scans done, the last scan
has read the source as it is (`Fresh.current`).
-/

namespace Z4jCelery.Lib.Rescan

/-- `scheduled` counts the scans to do, with the one that runs; `scanning` says of
this whether the source changed under it. The source is `current` when it has not
changed since the last scan, and not under it. -/
structure State where
  unseen : Bool
  scheduled : Nat
  scanning : Option Bool
  current : Bool

def State.init : State := ⟨false, 0, none, false⟩

inductive Event where
  | change | notify | start | finish

def step (s : State) : Event → Option State
  | .change => some { s with unseen := true, scanning := s.scanning.map fun _ => true, current := false }
  | .notify => some { s with unseen := false, scheduled := s.scheduled + 1 }
  | .start => if 0 < s.scheduled ∧ s.scanning = none then some { s with scanning := some false } else none
  | .finish => s.scanning.map fun torn => { s with scheduled := s.scheduled - 1, scanning := none, current := !torn }

/-- The scans that will read the source as it is now. -/
def State.owed (s : State) : Nat := if s.scanning = some true then s.scheduled - 1 else s.scheduled

variable {s s' : State} {e : Event}

/-! ## What every step keeps -/

structure Inv (s : State) : Prop where
  running : s.scanning ≠ none → 0 < s.scheduled
  torn : s.scanning = some true → s.current = false

theorem inv_init : Inv State.init := ⟨fun h => absurd rfl h, nofun⟩

theorem inv_step (h : step s e = some s') (hi : Inv s) : Inv s' := by
  obtain ⟨hrunning, htorn⟩ := hi
  cases e with
  | change =>
    obtain rfl := Option.some.inj h
    refine ⟨fun hscan => hrunning fun hnone => hscan ?_, fun _ => rfl⟩
    rw [hnone, Option.map_none]
  | notify =>
    obtain rfl := Option.some.inj h
    exact ⟨fun _ => Nat.succ_pos _, htorn⟩
  | start =>
    rw [step] at h
    split at h
    · rename_i hs
      obtain rfl := Option.some.inj h
      exact ⟨fun _ => hs.1, nofun⟩
    · cases h
  | finish =>
    obtain ⟨torn, -, rfl⟩ := Option.map_eq_some_iff.1 h
    exact ⟨fun hscan => absurd rfl hscan, nofun⟩

/-- A change is yet to be reported, or to be read, or was read. -/
def Fresh (s : State) : Prop := s.unseen = true ∨ 0 < s.owed ∨ s.current = true

def Quiet (s : State) : Prop := s.unseen = false ∧ s.scheduled = 0

/-- When all is quiet, the last scan read the source as it is. -/
theorem Fresh.current (hf : Fresh s) (hq : Quiet s) : s.current = true := by
  obtain ⟨hunseen, hscheduled⟩ := hq
  rcases hf with hf | hf | hf
  · rw [hunseen] at hf
    cases hf
  · unfold State.owed at hf
    split at hf <;> omega
  · exact hf

end Z4jCelery.Lib.Rescan
