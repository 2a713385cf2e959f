import LashOs.Launcher.Run

/-!
# The invariant of a launch

It has two parts. `Core` says what is out of the caller's hands at the moment, whatever the
launcher does next: which descriptors it owns, which signal actions it has replaced, whether the
terminal is raw, which directory it made. `At` says which of these there can be where the launch
is; the points of the program are numbered for it.

The kernel can refuse the calls that take something back. Each of them is about one part of the
state, and what the invariant says of that part it says under the assumption that they succeed.
-/
namespace LashOs.Launcher

open Base Holder

/-! ### Positions -/

/-- The points of the program in order. Of a process that a signal has ended nothing is known. -/
def Pc.stage : Pc → Nat
  | .logs => 0 | .privileges => 1 | .kvm => 2 | .kvmVersion => 3 | .landlock => 4 | .handlers => 5
  | .share => 6 | .hostRoot => 7 | .directory => 8 | .root => 9 | .extract => 10 | .modules => 11
  | .configure => 12 | .channel => 13 | .serial => 14 | .errors => 15 | .nonblock => 16
  | .terminal => 17 | .streams => 18 | .fork => 19 | .ends => 20 | .relay => 21
  | .fail => 22 | .done => 23 | .reap _ => 24 | .kill => 25
  | .restoreTerminal => 26 | .restoreHandlers => 27 | .closeStreams => 28 | .closePairs => 29
  | .closeLogs => 30 | .removeContents => 31 | .removeDirectory => 32 | .closeShare => 33
  | .returned => 34 | .killed => 35

/-- The point at which a variable is set; it is empty up to there. -/
def Slot.opened : Slot → Nat
  | .kvm => 2 | .share => 6 | .root => 9 | .channel _ => 13 | .serial _ => 14 | .errors _ => 15
  | .log _ => 16 | .stream _ => 18

/-- The last point at which the variable must hold a number after that. -/
def Slot.heldUntil : Slot → Nat
  | .kvm => 3 | .share => 19 | .root => 19 | .channel _ => 19
  | .serial second => if second then 19 else 16
  | .errors second => if second then 19 else 16
  | .log _ => 19
  -- A standard stream need not be reopened.
  | .stream _ => 0

/-- From this point on the variable is empty again. -/
def Slot.closed : Slot → Nat
  | .stream _ => 29 | .channel _ => 30 | .serial _ => 30 | .errors _ => 30 | .log _ => 31
  | .root => 32 | .share => 34 | .kvm => 34

theorem Slot.opened_le (slot : Slot) : slot.opened ≤ 18 := by cases slot <;> simp [Slot.opened]

theorem Slot.heldUntil_le (slot : Slot) : slot.heldUntil ≤ 19 := by
  cases slot <;> simp [Slot.heldUntil] <;> split <;> simp

theorem Slot.le_closed (slot : Slot) : 29 ≤ slot.closed := by cases slot <;> simp [Slot.closed]

theorem Slot.eq_of_opened {slot other : Slot} (alone : slot = .kvm ∨ slot = .share ∨ slot = .root)
    (same : other.opened = slot.opened) : other = slot := by
  rcases alone with rfl | rfl | rfl <;> cases other <;> simp_all [Slot.opened]

theorem Slot.pair_of_opened {slot : Bool → Slot} {other : Slot}
    (paired : slot = .channel ∨ slot = .serial ∨ slot = .errors)
    (same : other.opened = (slot false).opened) : other = slot false ∨ other = slot true := by
  rcases paired with rfl | rfl | rfl
  all_goals
    cases other with
    | channel second | serial second | errors second =>
      cases second <;> simp_all [Slot.opened]
    | _ => simp_all [Slot.opened]

theorem mem_streamSlots (slot : Slot) (now : slot.closed = 29) : slot ∈ streamSlots := by
  cases slot with
  | stream i =>
    revert i
    decide
  | _ => simp [Slot.closed] at now

theorem mem_pairSlots (slot : Slot) (now : slot.closed = 30) : slot ∈ pairSlots := by
  cases slot with
  | channel second | serial second | errors second => cases second <;> decide
  | _ => simp [Slot.closed] at now

theorem mem_logSlots (slot : Slot) (now : slot.closed = 31) : slot ∈ logSlots := by
  cases slot with
  | log second => cases second <;> decide
  | _ => simp [Slot.closed] at now

/-! ### The invariant -/

def HandledSignal.index (signal : HandledSignal) : Nat := handledSignals.idxOf signal

theorem HandledSignal.index_lt (signal : HandledSignal) : signal.index < 15 := by
  cases signal <;> decide

theorem getElem?_handledSignals {i : Nat} {signal : HandledSignal} :
    handledSignals[i]? = some signal ↔ signal.index = i := by
  constructor
  · intro found
    obtain ⟨below, rfl⟩ := List.getElem?_eq_some_iff.mp found
    have distinct : handledSignals.Nodup := by decide
    exact distinct.idxOf_getElem i below
  · rintro rfl
    cases signal <;> rfl

/-- What the kernel is assumed to grant: the saved mode of the terminal, the removal of the private
files, and the listing of each directory of which there is a copy. -/
structure Grants where
  terminal : Prop
  files : Prop
  listing : Prop

namespace Launch

/-- What the launcher has changed, against the state in which it was entered. -/
structure Core (w : Grants) (entry s : Launch) : Prop where
  owns : ∃ kept, Owns kept Slot.descriptor s.table ∧ Grows copyDescriptor entry.table.fds kept ∧
    (w.listing → kept.entry = entry.table.fds.entry)
  actions : ∀ signal, s.handling.actions signal =
    if s.handling.restored ≤ signal.index ∧ signal.index < s.handling.old.length then
      installedAction signal
    else entry.handling.actions signal
  saved : s.handling.old =
    (handledSignals.take s.handling.old.length).map entry.handling.actions
  count : s.handling.restored ≤ s.handling.old.length
  mode : s.terminal.raw = false → s.terminal.mode = .callers
  -- A child runs and the terminal is raw only while all handlers are in place.
  guarded : s.child = .running ∨ w.terminal ∧ s.terminal.raw = true →
    s.handling.old.length = 15 ∧ s.handling.restored = 0
  untouched : ∀ d, entry.files.contents d ≠ none → s.files.contents d = entry.files.contents d
  fresh : ∀ d, s.files.name = some d → entry.files.contents d = none
  made : ∀ d, s.files.name = some d → s.files.contents d ≠ none
  others : w.files → ∀ d, s.files.name ≠ some d → s.files.contents d = entry.files.contents d
  -- Nothing is written before the private directory is open.
  unwritten : w.files → ∀ d, s.files.name = some d → s.table.var .root = none →
    s.files.contents d = some .nil

/-- What there can be at a point of the program. -/
structure At (w : Grants) (s : Launch) (k : Nat) : Prop where
  noChild : k ≤ 19 → s.child = .none
  reaped : 26 ≤ k → s.child ≠ .running
  cooked : k ≤ 17 ∨ w.terminal ∧ 27 ≤ k → s.terminal.raw = false
  uninstalled : k ≤ 4 → s.handling.old = []
  installed : 6 ≤ k → k ≤ 21 → s.handling.old.length = 15
  unrestored : k ≤ 26 → s.handling.restored = 0
  restored : 28 ≤ k → s.handling.restored = s.handling.old.length
  before : ∀ slot : Slot, k ≤ slot.opened → s.table.var slot = none
  holding : ∀ slot : Slot, slot.opened < k → k ≤ slot.heldUntil → s.table.var slot ≠ none
  after : ∀ slot : Slot, slot.closed ≤ k → s.table.var slot = none
  kvmClosed : 4 ≤ k → k ≤ 21 → s.table.var .kvm = none
  filled : k ≤ 19 → Filled s.table
  unnamed : k ≤ 8 → s.files.name = none
  removed : w.files → 33 ≤ k → s.files.name = none

structure Inv (w : Grants) (entry s : Launch) : Prop where
  core : Core w entry s
  at_ : At w s s.pc.stage

variable {w : Grants} {entry s : Launch} {k k' : Nat}

theorem Core.few (core : Core w entry s) : s.handling.old.length ≤ 15 := by
  rw [core.saved, List.length_map, List.length_take]
  exact Nat.min_le_right _ _

/-- The points at which something that holds from there on begins. -/
def thresholds : List Nat := [3, 4, 6, 7, 10, 14, 15, 16, 17, 26, 27, 28, 29, 30, 31, 32, 33, 34]

/-- Nothing changes between two points with no threshold between them. -/
theorem At.advance (at_ : At w s k) (further : k ≤ k')
    (crossing : ∀ t ∈ thresholds, t ≤ k' → t ≤ k) : At w s k' := by
  have from_ (t : Nat) (member : t ∈ thresholds) : t ≤ k' → t ≤ k := crossing t member
  refine ⟨?_, ?_, ?_, ?_, ?_, ?_, ?_, ?_, ?_, ?_, ?_, ?_, ?_, ?_⟩
  · exact fun below => at_.noChild (by omega)
  · exact fun above => at_.reaped (from_ 26 (by decide) above)
  · rintro (below | ⟨granted, above⟩)
    · exact at_.cooked (.inl (by omega))
    · exact at_.cooked (.inr ⟨granted, from_ 27 (by decide) above⟩)
  · exact fun below => at_.uninstalled (by omega)
  · exact fun above below => at_.installed (from_ 6 (by decide) above) (by omega)
  · exact fun below => at_.unrestored (by omega)
  · exact fun above => at_.restored (from_ 28 (by decide) above)
  · exact fun slot below => at_.before slot (by omega)
  · intro slot above below
    refine at_.holding slot ?_ (by omega)
    cases slot with
    | kvm => exact from_ 3 (by decide) above
    | share => exact from_ 7 (by decide) above
    | root => exact from_ 10 (by decide) above
    | channel => exact from_ 14 (by decide) above
    | serial => exact from_ 15 (by decide) above
    | errors => exact from_ 16 (by decide) above
    | log => exact from_ 17 (by decide) above
    | stream => simp only [Slot.opened, Slot.heldUntil] at above below; omega
  · intro slot above
    refine at_.after slot ?_
    cases slot with
    | kvm => exact from_ 34 (by decide) above
    | share => exact from_ 34 (by decide) above
    | root => exact from_ 32 (by decide) above
    | channel => exact from_ 30 (by decide) above
    | serial => exact from_ 30 (by decide) above
    | errors => exact from_ 30 (by decide) above
    | log => exact from_ 31 (by decide) above
    | stream => exact from_ 29 (by decide) above
  · exact fun above below => at_.kvmClosed (from_ 4 (by decide) above) (by omega)
  · exact fun below => at_.filled (by omega)
  · exact fun below => at_.unnamed (by omega)
  · exact fun granted above => at_.removed granted (from_ 33 (by decide) above)

/-! ### From one point to the next -/

theorem At.early (below : k ≤ 19) (noChild : s.child = .none)
    (cooked : k ≤ 17 → s.terminal.raw = false) (uninstalled : k ≤ 4 → s.handling.old = [])
    (installed : 6 ≤ k → s.handling.old.length = 15) (unrestored : s.handling.restored = 0)
    (before : ∀ slot : Slot, k ≤ slot.opened → s.table.var slot = none)
    (holding : ∀ slot : Slot, slot.opened < k → k ≤ slot.heldUntil → s.table.var slot ≠ none)
    (kvmClosed : 4 ≤ k → s.table.var .kvm = none) (filled : Filled s.table)
    (unnamed : k ≤ 8 → s.files.name = none) : At w s k where
  noChild _ := noChild
  reaped := by omega
  cooked outside := cooked (by omega)
  uninstalled := uninstalled
  installed above _ := installed above
  unrestored _ := unrestored
  restored := by omega
  before := before
  holding := holding
  after slot late := by have := slot.le_closed; omega
  kvmClosed above _ := kvmClosed above
  filled _ := filled
  unnamed := unnamed
  removed := by omega

theorem At.late (above : 26 ≤ k) (reaped : s.child ≠ .running)
    (cooked : w.terminal → 27 ≤ k → s.terminal.raw = false)
    (unrestored : k ≤ 26 → s.handling.restored = 0)
    (restored : 28 ≤ k → s.handling.restored = s.handling.old.length)
    (after : ∀ slot : Slot, slot.closed ≤ k → s.table.var slot = none)
    (removed : w.files → 33 ≤ k → s.files.name = none) : At w s k where
  noChild := by omega
  reaped _ := reaped
  cooked outside := cooked (outside.resolve_left (by omega)).1 (by omega)
  uninstalled := by omega
  installed := by omega
  unrestored := unrestored
  restored := restored
  before slot early := by have := slot.opened_le; omega
  holding slot _ late := by have := slot.heldUntil_le; omega
  after := after
  kvmClosed := by omega
  filled := by omega
  unnamed := by omega
  removed := removed

theorem At.middle (above : 20 ≤ k) (below : k ≤ 25)
    (installed : k ≤ 21 → s.handling.old.length = 15) (unrestored : s.handling.restored = 0)
    (kvmClosed : k ≤ 21 → s.table.var .kvm = none) : At w s k where
  noChild := by omega
  reaped := by omega
  cooked := by omega
  uninstalled := by omega
  installed _ := installed
  unrestored _ := unrestored
  restored := by omega
  before slot early := by have := slot.opened_le; omega
  holding slot _ late := by have := slot.heldUntil_le; omega
  after slot late := by have := slot.le_closed; omega
  kvmClosed _ := kvmClosed
  filled := by omega
  unnamed := by omega
  removed := by omega

theorem At.opening (at_ : At w s k) {table : Table} {pc : Pc} (below : k ≤ 15) (plain : k ≠ 3 ∧ k ≠ 5)
    (sets : ∀ slot : Slot, slot.opened = k → table.var slot ≠ none)
    (keeps : ∀ slot : Slot, slot.opened ≠ k → table.var slot = s.table.var slot)
    (filled : Filled table) : At w { s with table := table, pc := pc } (k + 1) := by
  refine .early (by omega) (at_.noChild (by omega)) (fun _ => at_.cooked (by omega))
    (fun _ => at_.uninstalled (by omega)) (fun _ => at_.installed (by omega) (by omega))
    (at_.unrestored (by omega)) ?_ ?_ ?_ filled (fun _ => at_.unnamed (by omega))
  · exact fun slot early => (keeps slot (by omega)).trans (at_.before slot (by omega))
  · intro slot late early
    by_cases now : slot.opened = k
    · exact sets slot now
    · rw [keeps slot now]
      exact at_.holding slot (by omega) (by omega)
  · intro above
    rw [keeps .kvm (by simp only [Slot.opened]; omega)]
    exact at_.kvmClosed (by omega) (by omega)

theorem At.closing (at_ : At w s k) {slots : List Slot} {pc : Pc} (above : 28 ≤ k) (below : k ≤ 33)
    (covers : ∀ slot : Slot, slot.closed = k + 1 → slot ∈ slots)
    (removed : w.files → k = 32 → s.files.name = none) :
    At w { s with table := s.table.closeAll slots, pc := pc } (k + 1) := by
  refine .late (by omega) (at_.reaped (by omega))
    (fun granted _ => at_.cooked (.inr ⟨granted, by omega⟩)) (by omega)
    (fun _ => at_.restored (by omega)) ?_ ?_
  · intro slot late
    rw [var_closeAll]
    split
    · rfl
    next kept =>
      refine at_.after slot ?_
      have now := covers slot
      by_contra early
      exact kept (now (by omega))
  · intro granted _
    by_cases now : k = 32
    · exact removed granted now
    · exact at_.removed granted (by omega)

end Launch

end LashOs.Launcher
