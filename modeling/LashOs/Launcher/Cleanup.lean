import LashOs.Launcher.Steps

/-!
# What a launch leaves behind

A launch that returns is at the last point of the program, where the invariant leaves nothing out
of the caller's hands but what the kernel refused to take back. When a signal that the launcher
handles ends it, no child runs: its own actions are in place as long as one does. Against the other
signals it has no action. And a launch that has failed or whose relay has ended does return, or a
signal ends it.
-/
namespace LashOs.Launcher

open Base Holder

def Choice.isCall : Choice → Bool
  | .call _ => true
  | .signal _ => false

namespace Launch

variable {w : Grants} {entry s : Launch}

/-! ### Whole runs -/

/-- The mode of the terminal that was saved can be set where the launch ends. -/
def RestoresTerminal (s : Launch) (c : Choice) : Prop :=
  ∀ a, c = .call a → s.pc = .restoreTerminal → a.restored = true

/-- The kernel removes every private file: a directory that was made and rejected, what is in the
private directory, and the private directory itself. -/
def RemovesFiles (s : Launch) (c : Choice) : Prop :=
  ∀ a, c = .call a →
    (s.pc = .directory → a.tmp.removed = true ∧ a.varTmp.removed = true) ∧
    (s.pc = .removeContents → a.refusals = Refusals.none) ∧
    (s.pc = .removeDirectory → a.rmdir = true)

/-- `fdopendir` accepts every copy that `remove_contents` makes. -/
def ListsCopies (s : Launch) (c : Choice) : Prop :=
  ∀ a, c = .call a → s.pc = .removeContents →
    ∀ p, a.refusals.list p = true → a.refusals.copied p = false

/-- A step in which the kernel grants what is assumed. -/
structure Allows (w : Grants) (s : Launch) (c : Choice) : Prop where
  terminal : w.terminal → RestoresTerminal s c
  files : w.files → RemovesFiles s c
  listing : w.listing → ListsCopies s c

def nothing : Grants := ⟨False, False, False⟩

theorem allows_nothing (s : Launch) (c : Choice) : Allows nothing s c := ⟨nofun, nofun, nofun⟩

def granted (entry : Launch) (choices : List Choice) : Grants where
  terminal := Permits Launch.next RestoresTerminal entry choices
  files := Permits Launch.next RemovesFiles entry choices
  listing := Permits Launch.next ListsCopies entry choices

theorem Inv.refuseRoot (inv : Inv w entry s) (here : s.pc = .hostRoot) (printed : List String) :
    Inv w entry { s with pc := .done, printed := printed } where
  core := { inv.core with }
  at_ := show At w _ 23 from .middle (by omega) (by omega) (by omega)
    (inv.at_.unrestored (by simp [here, Pc.stage])) (by omega)

theorem Inv.call (inv : Inv w entry s) {a : Answers} (allows : Allows w s (.call a)) :
    Inv w entry (s.call a) := by
  -- One case for each statement; what a statement does is a lemma of its own.
  rw [Launch.call]
  cases here : s.pc with
  | logs => exact inv.check a.ok (by rw [here]; decide) (by rw [here]; decide) (by rw [here]; decide)
  | privileges =>
    exact inv.check a.ok (by rw [here]; decide) (by rw [here]; decide) (by rw [here]; decide)
  | kvm =>
    exact inv.acquire a.ok (by rw [here]; decide)
      (inv.openSlot (by rw [here]; rfl) (by rfl) (by decide))
  | kvmVersion => exact inv.acquire a.ok (by rw [here]; decide) (inv.closeKvm here)
  | landlock =>
    dsimp only
    split
    · have cleared : Inv w entry { s with handling := s.handling.clear } := inv.flags rfl rfl rfl
      exact cleared.goto (by simp [here, Pc.stage]) (by simp only [here]; decide)
    · exact inv.giveUp (by rw [here]; decide)
  | handlers => exact inv.install here a.ok
  | share =>
    exact inv.acquire a.ok (by rw [here]; decide)
      (inv.openSlot (by rw [here]; rfl) (by rfl) (by decide))
  | hostRoot =>
    dsimp only
    split
    · exact inv.giveUp (by rw [here]; decide)
    · split
      · exact inv.refuseRoot here _
      · exact inv.goto (by rw [here]; decide) (by rw [here]; decide)
  | directory => exact inv.makeDirectory here fun assumed => (allows.files assumed a rfl).1 here
  | root =>
    exact inv.acquire a.ok (by rw [here]; decide)
      (inv.openSlot (by rw [here]; rfl) (by rfl) (by decide))
  | extract =>
    exact inv.write a (by rw [here]; decide) (by rw [here]; decide) (by rw [here]; decide)
      (by rw [here]; decide)
  | modules =>
    have opened := inv.at_.holding .root (by rw [here]; decide) (by rw [here]; decide)
    have changed := inv.change (fun _ => a.contents) opened
    rw [here] at changed
    exact changed.check a.ok (by dsimp only; decide) (by dsimp only; decide)
      (by dsimp only; decide)
  | configure =>
    have active : Inv w entry { s with terminal := { s.terminal with active := a.isatty } } :=
      ⟨{ inv.core with }, { inv.at_ with }⟩
    rw [here] at active
    exact active.write a (by dsimp only; decide) (by dsimp only; decide) (by dsimp only; decide)
      (by dsimp only; decide)
  | channel =>
    exact inv.acquire a.ok (by rw [here]; decide)
      (inv.openPair (by rw [here]; rfl) (by rw [here]; rfl) (by simp))
  | serial =>
    exact inv.acquire a.ok (by rw [here]; decide)
      (inv.openPair (by rw [here]; rfl) (by rw [here]; rfl) (by simp))
  | errors =>
    exact inv.acquire a.ok (by rw [here]; decide)
      (inv.openPair (by rw [here]; rfl) (by rw [here]; rfl) (by simp))
  | nonblock => exact inv.acquire a.ok (by rw [here]; decide) (inv.nonblock here)
  | terminal => exact inv.setTerminal here a
  | streams => exact inv.openStreams here a.reopens
  | fork => exact inv.startChild here a.ok
  | ends =>
    have noRoot : Slot.root ∉ [Slot.serial true, .errors true, .channel true] := by decide
    dsimp only
    split
    · exact inv.closeMiddle (by rw [here]; decide) (by rw [here]; decide) (by rw [here]; decide)
        (by decide) noRoot
    · have closed : Inv w entry { s with
          table := s.table.closeAll [.serial true, .errors true, .channel true], pc := .ends } :=
        inv.closeMiddle (by rw [here]; decide) (by rw [here]; decide) (by rw [here])
          (by decide) noRoot
      exact closed.leaveRelay (by simp [Pc.stage]) _ _
  | relay => exact inv.relay here a
  | fail => exact inv.reportFailure here
  | done =>
    dsimp only
    split
    · exact inv.goto (by rw [here]; decide) (by rw [here]; decide)
    next gone => exact inv.reaped (by rw [here]; decide) (by rw [here]; decide) gone
  | reap round => exact inv.reap here a.ok
  | kill =>
    dsimp only
    split
    · exact inv.reaped (by rw [here]; decide) (by rw [here]; decide) (by simp)
    · exact inv
  | restoreTerminal =>
    exact inv.restoreTerminal here fun assumed => allows.terminal assumed a rfl here
  | restoreHandlers => exact inv.restore here
  | closeStreams =>
    exact inv.closing (by rw [here]; decide) (by rw [here]; decide) (by rw [here]; rfl)
      (by rw [here]; exact mem_streamSlots) (by simp [here, Pc.stage]) (by decide)
  | closePairs =>
    exact inv.closing (by rw [here]; decide) (by rw [here]; decide) (by rw [here]; rfl)
      (by rw [here]; exact mem_pairSlots) (by simp [here, Pc.stage]) (by decide)
  | closeLogs =>
    exact inv.closing (by rw [here]; decide) (by rw [here]; decide) (by rw [here]; rfl)
      (by rw [here]; exact mem_logSlots) (by simp [here, Pc.stage]) (by decide)
  | removeContents =>
    dsimp only
    split
    next opened =>
      exact inv.emptyDirectory here (Option.isSome_iff_ne_none.mp opened)
        (fun assumed => (allows.files assumed a rfl).2.1 here)
        (fun assumed => allows.listing assumed a rfl here)
    next unopened => exact inv.skipContents here (by simpa using unopened)
  | removeDirectory =>
    exact inv.removeDirectory here fun assumed => (allows.files assumed a rfl).2.2 here
  | closeShare =>
    refine inv.closing (by rw [here]; decide) (by rw [here]; decide) (by rw [here]; rfl) ?_ ?_ ?_
    · intro slot now
      rw [here] at now
      cases slot <;> simp_all [Slot.closed, Pc.stage]
    · simp [here, Pc.stage]
    · decide
  | returned => exact inv
  | killed => exact inv

theorem deliver_killed (dead : s.pc = .killed) (signal : Signal) :
    (s.deliver signal).pc = .killed := by
  rw [Launch.deliver.eq_def]
  split
  · exact dead
  · repeat' split
    all_goals first | exact dead | rfl

theorem next_inv (s : Launch) (c : Choice) (allows : Allows w s c)
    (before : s.pc = .killed ∨ Inv w entry s) :
    (s.next c).pc = .killed ∨ Inv w entry (s.next c) := by
  cases c with
  | signal signal =>
    rcases before with dead | inv
    · exact .inl (deliver_killed dead signal)
    · exact inv.deliver signal
  | call a =>
    rcases before with dead | inv
    · refine .inl ?_
      rw [Launch.next, Launch.call, dead]
      exact dead
    · exact .inr (inv.call allows)

theorem Entry.inv (start : Entry entry) : Inv w entry entry where
  core := {
    owns := ⟨entry.table.fds, .start start.empty, .refl _ _, fun _ => rfl⟩
    actions := by simp [start.handlers]
    saved := by simp [start.handlers]
    count := by simp [start.handlers]
    mode := fun _ => start.terminal.1
    guarded := by simp [start.child, start.terminal]
    untouched := fun _ _ => rfl
    others := fun _ _ _ => rfl
    fresh := by simp [start.name]
    made := by simp [start.name]
    unwritten := by simp [start.name] }
  at_ := by
    rw [start.pc]
    exact .early (by decide) start.child (fun _ => start.terminal.2) (fun _ => start.handlers.1)
      (by simp [Pc.stage]) start.handlers.2 (fun slot _ => start.empty slot)
      (fun slot early => by simp [Pc.stage] at early) (fun _ => start.empty .kvm)
      (.start start.empty) (fun _ => start.name)

theorem Entry.run_inv (start : Entry entry) {choices : List Choice}
    (allows : Permits Launch.next (Allows w) entry choices) :
    (run Launch.next entry choices).pc = .killed ∨ Inv w entry (run Launch.next entry choices) :=
  (allows.always next_inv (.inr start.inv)).final

theorem allows_granted (entry : Launch) (choices : List Choice) :
    Permits Launch.next (Allows (granted entry choices)) entry choices := by
  have terminal : Permits Launch.next (fun s c => (granted entry choices).terminal →
    RestoresTerminal s c) entry choices := permits_imp id
  have files : Permits Launch.next (fun s c => (granted entry choices).files →
    RemovesFiles s c) entry choices := permits_imp id
  have listing : Permits Launch.next (fun s c => (granted entry choices).listing →
    ListsCopies s c) entry choices := permits_imp id
  exact (terminal.and (files.and listing)).imp fun _ _ all => ⟨all.1, all.2.1, all.2.2⟩

/-! ### What is left -/

/-- A launch from a process with no descriptors and no handlers. -/
def fresh : Launch where
  pc := .logs
  table := ⟨Fds.empty, fun _ => none⟩
  handling := ⟨fun _ => .default, [], 0, none, false, false, false⟩
  terminal := ⟨.callers, false, false⟩
  files := ⟨fun _ => none, none⟩
  child := .none
  step := ""
  printed := []
  failed := false
  result := 125

theorem fresh_entry : Entry fresh := ⟨rfl, fun _ => rfl, ⟨rfl, rfl⟩, ⟨rfl, rfl⟩, rfl, rfl⟩

/-- Every call succeeds, and the relay ends in its first round. -/
def smooth : Answers where
  ok := true
  hostRoot := false
  tmp := ⟨true, some 0, true, true⟩
  varTmp := ⟨true, some 0, true, true⟩
  contents := .leaf [113] (.file 0 []) .nil
  isatty := true
  foreground := true
  raw := true
  stopRestored := true
  reopens := fun _ => true
  drained := fun _ => true
  finish := some (0, true)
  restored := true
  refusals := Refusals.none
  rmdir := true

theorem smooth_grants (count : Nat) :
    Permits Launch.next RestoresTerminal fresh (List.replicate count (.call smooth)) ∧
    Permits Launch.next RemovesFiles fresh (List.replicate count (.call smooth)) ∧
    Permits Launch.next ListsCopies fresh (List.replicate count (.call smooth)) := by
  refine ⟨permits_of_forall ?_, permits_of_forall ?_, permits_of_forall ?_⟩
  all_goals
    rintro c member s a rfl
    cases List.eq_of_mem_replicate member
  · exact fun _ => rfl
  · exact ⟨fun _ => ⟨rfl, rfl⟩, fun _ => rfl, fun _ => rfl⟩
  · exact fun _ _ _ => rfl

/-- What a launch that returns has taken back, whichever calls failed on the way and whichever
signals arrived. No child runs, the signal actions are those of the caller, no descriptor and no
directory of the caller is touched. A descriptor is left only where a copy could not be listed, the
terminal is raw only if its mode could not be set, and a directory is left only if the kernel did
not remove it or something in it. -/
theorem sandboxRun_restores (start : Entry entry) (choices : List Choice)
    (ended : (run Launch.next entry choices).pc = .returned) :
    (run Launch.next entry choices).child ≠ .running ∧
    (run Launch.next entry choices).handling.actions = entry.handling.actions ∧
    Grows copyDescriptor entry.table.fds (run Launch.next entry choices).table.fds ∧
    (Permits Launch.next ListsCopies entry choices →
      (run Launch.next entry choices).table.fds.entry = entry.table.fds.entry) ∧
    (Permits Launch.next RestoresTerminal entry choices →
      (run Launch.next entry choices).terminal.mode = .callers) ∧
    (∀ d, entry.files.contents d ≠ none →
      (run Launch.next entry choices).files.contents d = entry.files.contents d) ∧
    (Permits Launch.next RemovesFiles entry choices →
      (run Launch.next entry choices).files.contents = entry.files.contents) := by
  have inv := (start.run_inv (allows_granted entry choices)).resolve_left (by rw [ended]; simp)
  generalize granted_ : granted entry choices = w at inv
  generalize run Launch.next entry choices = s at inv ended ⊢
  have at_ : At w s 34 := by simpa [ended, Pc.stage] using inv.at_
  obtain ⟨kept, owns, grows, same⟩ := inv.core.owns
  -- No variable holds a number any more.
  have left : s.table.fds.entry = kept.entry := by
    funext n
    refine owns.restored (fun slot => at_.after slot ?_) n
    cases slot <;> simp [Slot.closed]
  subst granted_
  refine ⟨at_.reaped (by omega), ?_, ?_, fun lists => ?_, fun restores => ?_, inv.core.untouched,
    fun removes => ?_⟩
  · funext signal
    have all := at_.restored (by omega)
    rw [inv.core.actions, if_neg (by omega)]
  · refine ⟨fun n open_ => ?_, fun n free => ?_⟩
    · rw [left]
      exact grows.kept n open_
    · rw [left]
      exact grows.gained n free
  · rw [left]
    exact same lists
  · exact inv.core.mode (at_.calm (by omega) restores)
  · funext d
    exact inv.core.others removes d (by simp [at_.removed removes (by omega)])

theorem sandboxRun_restores_smooth :
    (run Launch.next fresh (List.replicate 80 (.call smooth))).files.contents =
      fresh.files.contents ∧
    (run Launch.next fresh (List.replicate 80 (.call smooth))).terminal.mode = .callers ∧
    (run Launch.next fresh (List.replicate 80 (.call smooth))).table.fds.entry =
      fresh.table.fds.entry := by
  obtain ⟨restores, removes, lists⟩ := smooth_grants 80
  obtain ⟨-, -, -, table, terminal, -, files⟩ :=
    sandboxRun_restores fresh_entry (List.replicate 80 (.call smooth)) (by decide +kernel)
  exact ⟨files removes, terminal restores, table lists⟩

/-- When a signal of those that the launcher handles ends it, no child runs, and the terminal is as
the caller had it unless its mode could not be set: it can only leave private files. -/
theorem sandboxRun_killed (start : Entry entry) (choices : List Choice) (signal : HandledSignal)
    (alive : (run Launch.next entry choices).pc ≠ .killed)
    (ended : (run Launch.next entry (choices ++ [.signal (.handled signal)])).pc = .killed) :
    (run Launch.next entry choices).child ≠ .running ∧
    (Permits Launch.next RestoresTerminal entry choices →
      (run Launch.next entry choices).terminal.mode = .callers) := by
  have inv := (start.run_inv (allows_granted entry choices)).resolve_left alive
  rw [run_append] at ended
  generalize run Launch.next entry choices = s at inv alive ended ⊢
  -- A caught or ignored signal does not end it, so its action is the default one.
  have default : s.handling.actions signal = .default := by
    by_contra other
    refine alive ?_
    rw [run_cons, run_nil, Launch.next, Launch.deliver.eq_def] at ended
    split at ended
    · exact ended
    · dsimp only at ended
      split at ended
      · exact ended
      · exact ended
      next is => exact absurd is other
  have idle := inv.core.idle default
  rw [not_or, not_and] at idle
  exact ⟨idle.1, fun restores => inv.core.mode (Bool.eq_false_iff.mpr (idle.2 restores))⟩

theorem sandboxRun_killed_at_start :
    (run Launch.next fresh [.call smooth]).child ≠ .running ∧
    (run Launch.next fresh [.call smooth]).terminal.mode = .callers := by
  obtain ⟨child, terminal⟩ := sandboxRun_killed fresh_entry [.call smooth] .int (by decide +kernel)
    (by decide +kernel)
  exact ⟨child, terminal (smooth_grants 1).1⟩

/-! ### The cleanup comes to its end -/

/-- How many statements are left at most, once the launch has failed or the relay has ended. -/
def remaining (s : Launch) : Nat :=
  match s.pc with
  | .fail => 102
  | .done => 101
  | .reap round => 50 + (50 - round)
  | .kill => 49
  | .restoreTerminal => 48
  | .restoreHandlers => 8 + (s.handling.old.length - s.handling.restored)
  | .closeStreams => 7
  | .closePairs => 6
  | .closeLogs => 5
  | .removeContents => 4
  | .removeDirectory => 3
  | .closeShare => 2
  | _ => 0

def Waits (s : Launch) (c : Choice) : Prop := ∀ a, c = .call a → s.pc = .kill → a.ok = true

def Leaving (s : Launch) : Prop := 22 ≤ s.pc.stage ∧ s.pc ≠ .killed

theorem remaining_call (inv : Inv w entry s) (leaving : Leaving s) {a : Answers}
    (waits : s.pc = .kill → a.ok = true) :
    Leaving (s.call a) ∧ (s.call a).remaining ≤ s.remaining - 1 := by
  have few := inv.core.few
  rw [Launch.call, remaining.eq_def s]
  -- Every statement of the cleanup leaves fewer, and the last wait is answered.
  cases here : s.pc with
  | fail =>
    dsimp only
    rw [reportFailure]
    split <;> simp [Leaving, remaining, Pc.stage]
  | done =>
    dsimp only
    split <;> simp [Leaving, remaining, Pc.stage, Launch.goto]
  | reap round =>
    dsimp only
    rw [Launch.reap]
    split
    · simp only [Leaving, remaining, Pc.stage]
      refine ⟨by decide, by omega⟩
    · split
      · simp only [Leaving, remaining, Pc.stage, Launch.goto]
        refine ⟨by simp, by omega⟩
      · simp only [Leaving, remaining, Pc.stage, Launch.goto]
        refine ⟨by decide, by omega⟩
  | kill => simp [Leaving, remaining, Pc.stage, waits here]
  | restoreTerminal =>
    simp only [Leaving, remaining, Pc.stage]
    refine ⟨by decide, by omega⟩
  | restoreHandlers =>
    dsimp only
    rw [restore]
    split
    next signal action _ saved =>
      obtain ⟨below, -⟩ := List.getElem?_eq_some_iff.mp saved
      simp only [Leaving, remaining, here, Pc.stage, restoreHandler, Handling.set]
      refine ⟨by decide, by omega⟩
    · simp only [Leaving, remaining, Pc.stage, Launch.goto]
      refine ⟨by decide, by omega⟩
  | closeStreams | closePairs | closeLogs | removeDirectory | closeShare =>
    simp [Leaving, remaining, Pc.stage]
  | removeContents =>
    dsimp only
    split <;> simp [Leaving, remaining, Pc.stage, Launch.goto, Launch.emptyDirectory]
  | returned => simp [Leaving, remaining, here, Pc.stage]
  | killed => exact absurd here leaving.2
  | _ => simp [Leaving, here, Pc.stage] at leaving

theorem remaining_deliver (leaving : Leaving s) (signal : Signal) :
    (s.deliver signal).pc = .killed ∨
      Leaving (s.deliver signal) ∧ (s.deliver signal).remaining = s.remaining := by
  rw [Launch.deliver.eq_def]
  split
  · exact .inr ⟨leaving, rfl⟩
  · cases signal with
    | other ends =>
      cases ends with
      | true => exact .inl rfl
      | false => exact .inr ⟨leaving, rfl⟩
    | handled signal =>
      dsimp only
      split
      · exact .inr ⟨leaving, rfl⟩
      · refine .inr ⟨leaving, ?_⟩
        have flags : (Launcher.caughtSignal s.handling signal).old = s.handling.old ∧
            (Launcher.caughtSignal s.handling signal).restored = s.handling.restored := by
          rw [Launcher.caughtSignal.eq_def]
          split <;> exact ⟨rfl, rfl⟩
        simp only [remaining, flags]
      · split
        · exact .inl rfl
        · exact .inr ⟨leaving, rfl⟩

theorem remaining_killed (dead : s.pc = .killed) : s.remaining = 0 := by rw [remaining, dead]

theorem remaining_next (s : Launch) (c : Choice) (waits : Waits s c)
    (before : s.pc = .killed ∨ Inv nothing entry s ∧ Leaving s) :
    ((s.next c).pc = .killed ∨ Inv nothing entry (s.next c) ∧ Leaving (s.next c)) ∧
    (s.next c).remaining ≤ s.remaining - (if c.isCall then 1 else 0) := by
  have kept := next_inv s c (allows_nothing s c) (before.imp_right And.left)
  rcases before with dead | ⟨inv, leaving⟩
  · have still : (s.next c).pc = .killed := by
      cases c with
      | signal signal => exact deliver_killed dead signal
      | call a =>
        rw [Launch.next, Launch.call, dead]
        exact dead
    exact ⟨.inl still, by rw [remaining_killed still]; exact Nat.zero_le _⟩
  cases c with
  | signal signal =>
    rcases remaining_deliver leaving signal with dead | ⟨still, same⟩
    · refine ⟨.inl dead, ?_⟩
      rw [Launch.next, remaining_killed dead]
      exact Nat.zero_le _
    · exact ⟨kept.imp_right fun inv => ⟨inv, still⟩, Nat.le_of_eq same⟩
  | call a =>
    obtain ⟨still, less⟩ := remaining_call inv leaving (waits a rfl)
    exact ⟨kept.imp_right fun inv => ⟨inv, still⟩, less⟩

/-- A launch that has failed, or whose relay has ended, returns within 102 statements, or a signal
ends it before: no answer of the kernel keeps the cleanup from its end, as long as the wait for the
killed child returns. -/
theorem sandboxRun_returns (start : Entry entry) (choices : List Choice)
    (leaving : (run Launch.next entry choices).pc = .fail ∨
      (run Launch.next entry choices).pc = .done)
    (more : List Choice)
    (waits : Permits Launch.next Waits (run Launch.next entry choices) more)
    (long : 102 ≤ more.countP Choice.isCall) :
    (run Launch.next entry (choices ++ more)).pc = .returned ∨
    (run Launch.next entry (choices ++ more)).pc = .killed := by
  have alive : (run Launch.next entry choices).pc ≠ .killed := by
    rcases leaving with here | here <;> simp [here]
  have inv := (start.run_inv (permits_of_forall fun c _ s => allows_nothing s c)).resolve_left alive
  rw [run_append]
  generalize run Launch.next entry choices = s at inv leaving waits ⊢
  have first : Leaving s ∧ s.remaining ≤ 102 := by
    rcases leaving with here | here <;> simp [Leaving, remaining, here, Pc.stage]
  have kept := (waits.always (fun t c waits good => (remaining_next t c waits good).1)
    (.inr ⟨inv, first.1⟩)).final
  have ended := waits.exhausts (fun t c waits good => (remaining_next t c waits good).1)
    (fun t c waits good => (remaining_next t c waits good).2) (.inr ⟨inv, first.1⟩)
    (Nat.le_trans first.2 long)
  generalize run Launch.next s more = t at kept ended ⊢
  rcases kept with dead | ⟨-, late, lives⟩
  · exact .inr dead
  · refine .inl ?_
    rw [remaining] at ended
    cases here : t.pc <;> simp_all [Pc.stage]

theorem sandboxRun_returns_fresh :
    (run Launch.next fresh ([.call { smooth with ok := false }] ++
      (.signal (.handled .winch) :: List.replicate 102 (.call smooth)))).pc = .returned := by
  refine (sandboxRun_returns fresh_entry [.call { smooth with ok := false }] (.inl rfl)
    (.signal (.handled .winch) :: List.replicate 102 (.call smooth)) ?_ ?_).resolve_right
    (by decide +kernel)
  · refine permits_of_forall ?_
    rintro c member s a rfl here
    rcases List.mem_cons.mp member with other | member
    · cases other
    · cases List.eq_of_mem_replicate member
      rfl
  · rw [List.countP_cons, List.countP_replicate]
    decide

end Launch

end LashOs.Launcher
