import LashOs.Launcher.Invariant

/-!
# The steps of a launch

One lemma for each statement of `sandbox_run` that changes more than the point of the program, and
one for the arrival of a signal.
-/
namespace LashOs.Launcher

open Base Holder

namespace Launch

variable {w : Grants} {entry s : Launch} {k k' : Nat} {pc : Pc}

theorem Core.withTable (core : Core w entry s) {table : Table}
    (owns : ∀ kept, Owns kept Slot.descriptor s.table → Owns kept Slot.descriptor table)
    (root : table.var .root = none → s.table.var .root = none) :
    Core w entry { s with table := table, pc := pc } := by
  obtain ⟨kept, owned, rest⟩ := core.owns
  exact { core with
    owns := ⟨kept, owns kept owned, rest⟩
    unwritten := fun granted d named empty => core.unwritten granted d named (root empty) }

theorem Inv.giveUp (inv : Inv w entry s) (early : s.pc.stage ≤ 21) : Inv w entry s.giveUp where
  core := { inv.core with }
  at_ := show At w s.giveUp 22 from
    .middle (by omega) (by omega) (by omega) (inv.at_.unrestored (by omega)) (by omega)

theorem Inv.goto (inv : Inv w entry s) (further : s.pc.stage ≤ pc.stage)
    (crossing : ∀ t ∈ thresholds, t ≤ pc.stage → t ≤ s.pc.stage) : Inv w entry (s.goto pc) where
  core := { inv.core with }
  at_ := { inv.at_.advance further crossing with }

theorem Inv.check (inv : Inv w entry s) (ok : Bool) (early : s.pc.stage ≤ 21)
    (further : s.pc.stage ≤ pc.stage) (crossing : ∀ t ∈ thresholds, t ≤ pc.stage → t ≤ s.pc.stage) :
    Inv w entry (s.check ok pc) := by
  rw [Launch.check]
  split
  · exact inv.goto further crossing
  · exact inv.giveUp early

theorem Inv.acquire (inv : Inv w entry s) {table : Table} (ok : Bool) (early : s.pc.stage ≤ 21)
    (opened : Inv w entry { s with table := table, pc := pc }) :
    Inv w entry (s.acquire ok table pc) := by
  rw [Launch.acquire]
  split
  · exact opened
  · exact inv.giveUp early

theorem Inv.openSlot (inv : Inv w entry s) {slot : Slot} (here : s.pc.stage = slot.opened)
    (next : pc.stage = slot.opened + 1) (alone : slot = .kvm ∨ slot = .share ∨ slot = .root) :
    Inv w entry { s with table := Launcher.openSlot s.table slot, pc := pc } where
  core := by
    have empty := inv.at_.before slot (Nat.le_of_eq here)
    refine inv.core.withTable (fun _ owns => owns.openInto empty) ?_
    rw [Launcher.openSlot, var_openInto]
    split
    · simp
    · exact id
  at_ := by
    rw [show Pc.stage _ = _ from next]
    have at_ : At w s slot.opened := here ▸ inv.at_
    have small : slot.opened ≤ 15 ∧ slot.opened ≠ 3 ∧ slot.opened ≠ 5 := by
      rcases alone with rfl | rfl | rfl <;> decide
    refine at_.opening small.1 small.2 ?_ ?_ ((at_.filled (by omega)).openInto slot _)
    · intro other same
      simp [Launcher.openSlot, Slot.eq_of_opened alone same]
    · intro other different
      have : other ≠ slot := fun same => different (same ▸ rfl)
      simp [Launcher.openSlot, this]

/-- Both ends of a pair. -/
theorem Inv.openPair (inv : Inv w entry s) {slot : Bool → Slot}
    (here : s.pc.stage = (slot false).opened) (next : pc.stage = s.pc.stage + 1)
    (paired : slot = .channel ∨ slot = .serial ∨ slot = .errors) :
    Inv w entry { s with table := Launcher.openPair s.table slot, pc := pc } := by
  have both : ∀ b, s.pc.stage = (slot b).opened := by
    intro b
    rcases paired with rfl | rfl | rfl <;> exact here
  have distinct : slot true ≠ slot false := by
    rcases paired with rfl | rfl | rfl <;> decide
  have small : 9 < s.pc.stage ∧ s.pc.stage ≤ 15 := by
    rw [here]
    rcases paired with rfl | rfl | rfl <;> decide
  refine ⟨?_, ?_⟩
  · have first := inv.at_.before (slot false) (Nat.le_of_eq here)
    have second := inv.at_.before (slot true) (Nat.le_of_eq (both true))
    have notRoot : ∀ b, Slot.root ≠ slot b := by
      intro b same
      have stage := both b
      rw [← same, Slot.opened] at stage
      omega
    refine inv.core.withTable (fun _ owns => (owns.openInto first).openInto ?_) ?_
    · rw [var_openInto, if_neg distinct]
      exact second
    · simp [Launcher.openPair, Launcher.openSlot, notRoot]
  · rw [show Pc.stage _ = _ from next]
    refine inv.at_.opening small.2 (by omega) ?_ ?_
      (((inv.at_.filled (by omega)).openInto (slot false) _).openInto (slot true) _)
    · intro other same
      rcases Slot.pair_of_opened paired (same.trans here) with rfl | rfl
      · simp [Launcher.openPair, Launcher.openSlot, distinct.symm]
      · simp [Launcher.openPair, Launcher.openSlot]
    · intro other different
      have : ∀ b, other ≠ slot b := fun b same => different (same ▸ (both b).symm)
      simp [Launcher.openPair, Launcher.openSlot, this]

theorem Inv.closing (inv : Inv w entry s) {slots : List Slot} (above : 28 ≤ s.pc.stage)
    (below : s.pc.stage ≤ 33) (next : pc.stage = s.pc.stage + 1)
    (covers : ∀ slot : Slot, slot.closed = s.pc.stage + 1 → slot ∈ slots)
    (removed : w.files → s.pc.stage = 32 → s.files.name = none) (root : Slot.root ∉ slots) :
    Inv w entry { s with table := s.table.closeAll slots, pc := pc } where
  core := by
    refine inv.core.withTable (fun _ owns => owns.closeAll slots) ?_
    rw [var_closeAll, if_neg root]
    exact id
  at_ := by
    rw [show Pc.stage _ = _ from next]
    exact inv.at_.closing above below covers removed

theorem Inv.closeKvm (inv : Inv w entry s) (here : s.pc = .kvmVersion) :
    Inv w entry { s with table := s.table.closeOf .kvm, pc := .landlock } := by
  have at_ : At w s 3 := by simpa [here, Pc.stage] using inv.at_
  -- The device was the only descriptor.
  have empty : ∀ slot, (s.table.closeOf .kvm).var slot = none := by
    intro slot
    rw [var_closeOf]
    split
    · rfl
    next other =>
      refine at_.before slot ?_
      cases slot <;> simp_all [Slot.opened]
  refine ⟨inv.core.withTable (fun _ owns => owns.closeOf .kvm) ?_, ?_⟩
  · simp
  · show At w _ 4
    refine .early (by omega) (at_.noChild (by omega)) (fun _ => at_.cooked (.inl (by omega)))
      (fun _ => at_.uninstalled (by omega)) (by omega) (at_.unrestored (by omega))
      (fun slot _ => empty slot) ?_ (fun _ => empty .kvm) (.start empty)
      (fun _ => at_.unnamed (by omega))
    intro slot late early
    cases slot <;> simp [Slot.opened, Slot.heldUntil] at late early

theorem take_succ_of_index {signal : HandledSignal} :
    handledSignals.take (signal.index + 1) = handledSignals.take signal.index ++ [signal] := by
  rw [List.take_add_one, getElem?_handledSignals.mpr rfl]
  rfl

theorem Inv.install (inv : Inv w entry s) (here : s.pc = .handlers) (ok : Bool) :
    Inv w entry (s.install ok) := by
  have at_ : At w s 5 := by simpa [here, Pc.stage] using inv.at_
  have unrestored := at_.unrestored (by omega)
  rw [Launch.install]
  cases found : handledSignals[s.handling.old.length]? with
  | none =>
    have all : s.handling.old.length = 15 := by
      have most := inv.core.few
      have least : 15 ≤ s.handling.old.length := List.getElem?_eq_none_iff.mp found
      omega
    refine ⟨{ inv.core with }, ?_⟩
    show At w _ 6
    refine .early (by omega) (at_.noChild (by omega)) (fun _ => at_.cooked (.inl (by omega))) (by omega)
      (fun _ => all) unrestored (fun slot early => at_.before slot (by omega)) ?_
      (fun _ => at_.kvmClosed (by omega) (by omega)) (at_.filled (by omega))
      (fun _ => at_.unnamed (by omega))
    intro slot late early
    cases slot <;> simp [Slot.opened, Slot.heldUntil] at late early
  | some signal =>
    dsimp only
    split
    · -- The action that the handler replaces is saved behind the others.
      have index := getElem?_handledSignals.mp found
      have unhandled : s.handling.actions signal = entry.handling.actions signal := by
        rw [inv.core.actions, if_neg (by omega)]
      have calm := at_.cooked (.inl (by omega))
      have childless := at_.noChild (by omega)
      refine ⟨{ inv.core with actions := ?_, saved := ?_, count := ?_, guarded := ?_ }, ?_⟩
      · intro other
        simp only [installHandler, Handling.set, Function.update_apply, List.length_append,
          List.length_singleton]
        by_cases same : other = signal
        · rw [if_pos same, if_pos (by subst same; omega), same]
        · have different : other.index ≠ s.handling.old.length := by
            intro equal
            have := getElem?_handledSignals.mpr equal
            rw [found] at this
            exact same (Option.some.inj this).symm
          rw [if_neg same, inv.core.actions]
          exact if_congr (by omega) rfl rfl
      · simp only [installHandler, List.length_append, List.length_singleton]
        rw [← index, take_succ_of_index, List.map_append, index, ← inv.core.saved, unhandled]
        rfl
      · exact unrestored ▸ Nat.zero_le _
      · rintro (running | ⟨-, raw⟩)
        · simp [childless] at running
        · simp [calm] at raw
      · have advanced : At w s 5 := at_
        simp only [here]
        exact { advanced with uninstalled := by simp [Pc.stage], installed := by simp [Pc.stage],
                              restored := by simp [Pc.stage] }
    · exact inv.giveUp (by simp [here, Pc.stage])

/-! ### Private files -/

/-- What looking for a private directory can change: there are new empty directories, of which the
variable names at most one. If the kernel removes the rejected ones, there is no other. -/
structure Tries (removed : Prop) (f f' : Files) : Prop where
  named : ∀ d, f'.name = some d → f.contents d = none ∧ f'.contents d = some .nil
  untouched : ∀ d, f.contents d ≠ none → f'.contents d = f.contents d
  others : removed → ∀ d, f'.name ≠ some d → f'.contents d = f.contents d

theorem Tries.refl {removed : Prop} {f : Files} (unnamed : f.name = none) : Tries removed f f :=
  ⟨by simp [unnamed], fun _ _ => rfl, fun _ _ _ => rfl⟩

theorem Tries.trans {first second : Prop} {f f' f'' : Files} (one : Tries first f f')
    (unnamed : f'.name = none) (two : Tries second f' f'') :
    Tries (first ∧ second) f f'' := by
  refine ⟨fun d named => ?_, fun d there => ?_, fun removed d other => ?_⟩
  · obtain ⟨absent, made⟩ := two.named d named
    refine ⟨?_, made⟩
    by_contra there
    rw [one.untouched d there] at absent
    exact there absent
  · have still := one.untouched d there
    rw [two.untouched d (by rw [still]; exact there), still]
  · rw [two.others removed.2 d other, one.others removed.1 d (by simp [unnamed])]

theorem Tries.weaken {first second : Prop} {f f' : Files} (tries : Tries first f f')
    (implied : second → first) : Tries second f f' :=
  ⟨tries.named, tries.untouched, fun removed => tries.others (implied removed)⟩

theorem tryBase_tries (base : RuntimeBase) (c : Candidate) {f : Files} (unnamed : f.name = none) :
    Tries (c.removed = true) f (tryBase base c f) := by
  rw [tryBase]
  split
  · exact .refl unnamed
  next suffix _ =>
    dsimp only
    split
    · exact .refl unnamed
    next possible =>
      simp only [Bool.or_eq_true, not_or] at possible
      have absent : f.contents ⟨base, suffix⟩ = none := by simpa using possible.2
      -- The new directory is the only difference.
      have elsewhere {d : Directory} (other : d ≠ ⟨base, suffix⟩) :
          (f.set ⟨base, suffix⟩ (some .nil)).contents d = f.contents d := by
        simp [Files.set, other]
      have older {d : Directory} (there : f.contents d ≠ none) : d ≠ ⟨base, suffix⟩ := by
        rintro rfl
        exact there absent
      split
      · refine ⟨fun d named => ?_, fun d there => elsewhere (older there), fun _ d other => ?_⟩
        · cases Option.some.inj named
          exact ⟨absent, by simp [Files.set]⟩
        · exact elsewhere fun same => other (same ▸ rfl)
      · split
        · exact .refl unnamed
        next left =>
          exact ⟨by simp [Files.set, unnamed], fun d there => elsewhere (older there),
            fun removed => absurd removed left⟩

theorem privateDirectory_tries (tmp varTmp : Candidate) {f : Files} (unnamed : f.name = none) :
    Tries (tmp.removed = true ∧ varTmp.removed = true) f (privateDirectory tmp varTmp f) := by
  have first := tryBase_tries .tmp tmp unnamed
  rw [privateDirectory]
  split
  · exact first.weaken And.left
  next none_ =>
    have still : (tryBase .tmp tmp f).name = none := by simpa using none_
    exact first.trans still (tryBase_tries .varTmp varTmp still)

/-- The private directory is named once it is made. -/
theorem Inv.makeDirectory (inv : Inv w entry s) (here : s.pc = .directory) {a : Answers}
    (removed : w.files → a.tmp.removed = true ∧ a.varTmp.removed = true) :
    Inv w entry (s.makeDirectory a) := by
  have at_ : At w s 8 := by simpa [here, Pc.stage] using inv.at_
  have unnamed := at_.unnamed (by omega)
  rw [Launch.makeDirectory]
  split
  · exact inv.giveUp (by simp [here, Pc.stage])
  · obtain ⟨named, untouched, others⟩ := privateDirectory_tries a.tmp a.varTmp unnamed
    dsimp only
    generalize privateDirectory a.tmp a.varTmp s.files = f at named untouched others ⊢
    have old (d : Directory) (there : entry.files.contents d ≠ none) :
        s.files.contents d = entry.files.contents d := inv.core.untouched d there
    refine ⟨{ inv.core with
      untouched := ?_, others := ?_, fresh := ?_, made := ?_, unwritten := ?_ }, ?_⟩
    · intro d there
      rw [untouched d (by rw [old d there]; exact there), old d there]
    · intro d here
      by_contra there
      have absent := (named d here).1
      rw [old d there] at absent
      exact there absent
    · intro d here
      rw [(named d here).2]
      simp
    · intro granted d other
      rw [others (removed granted) d other]
      exact inv.core.others granted d (by simp [unnamed])
    · exact fun _ d here _ => (named d here).2
    · cases name : f.name with
      | none =>
        show At w _ 22
        exact .middle (by omega) (by omega) (by omega) (at_.unrestored (by omega)) (by omega)
      | some d =>
        have advanced : At w s 9 := at_.advance (by omega) (by decide)
        exact { advanced with
          unnamed := by simp [Pc.stage], removed := by simp [Pc.stage] }

/-! Only the directory that is named changes, and it does not go. -/

@[simp] theorem name_change (f : Files) (change : Contents → Contents) :
    (f.change change).name = f.name := by
  rw [Files.change]
  split <;> rfl

theorem contents_change (f : Files) (change : Contents → Contents) (d : Directory) :
    (f.change change).contents d =
      if f.name = some d then (f.contents d).map change else f.contents d := by
  rw [Files.change]
  split
  next unnamed => simp [unnamed]
  next e named =>
    by_cases same : d = e
    · simp [Files.set, named, same]
    · have : e ≠ d := fun equal => same equal.symm
      simp [Files.set, named, same, this]

theorem Inv.change (inv : Inv w entry s) (change : Contents → Contents)
    (opened : s.table.var .root ≠ none) :
    Inv w entry { s with files := s.files.change change } := by
  refine ⟨{ inv.core with
    untouched := ?_, others := ?_, fresh := ?_, made := ?_, unwritten := ?_ }, ?_⟩
  · intro d there
    -- The private directory was not there on entry.
    have different : s.files.name ≠ some d := fun named => there (inv.core.fresh d named)
    rw [contents_change, if_neg different]
    exact inv.core.untouched d there
  · rw [name_change]
    exact inv.core.fresh
  · intro d named
    rw [name_change] at named
    rw [contents_change, if_pos named]
    simpa using inv.core.made d named
  · intro granted d different
    rw [name_change] at different
    rw [contents_change, if_neg different]
    exact inv.core.others granted d different
  · intro _ d _ empty
    exact absurd empty opened
  · exact { inv.at_ with unnamed := by rw [name_change]; exact inv.at_.unnamed
                         removed := by rw [name_change]; exact inv.at_.removed }

theorem Inv.write (inv : Inv w entry s) (a : Answers) (above : 9 < s.pc.stage)
    (below : s.pc.stage ≤ 19) (further : s.pc.stage ≤ pc.stage)
    (crossing : ∀ t ∈ thresholds, t ≤ pc.stage → t ≤ s.pc.stage) : Inv w entry (s.write a pc) := by
  rw [Launch.write]
  split
  · exact inv.giveUp (by omega)
  · have opened := inv.at_.holding .root above below
    have early : s.pc.stage ≤ 21 := by omega
    exact (inv.change (fun _ => a.contents) opened).check a.ok early further crossing

/-! ### Logs, terminal and child -/

theorem Inv.nonblock (inv : Inv w entry s) (here : s.pc = .nonblock) :
    Inv w entry { s with
      table := (s.table.move (.serial false) (.log false)).move (.errors false) (.log true),
      pc := .terminal } := by
  have at_ : At w s 16 := by simpa [here, Pc.stage] using inv.at_
  have noLog := fun second => at_.before (.log second) (by simp [Slot.opened])
  refine ⟨inv.core.withTable ?_ ?_, ?_⟩
  · intro kept owns
    refine (owns.move (.serial false) (noLog false) (by decide) rfl).move _ ?_ (by decide) rfl
    simpa using noLog true
  · simp
  · show At w _ 17
    refine .early (by omega) (at_.noChild (by omega)) (fun _ => at_.cooked (.inl (by omega))) (by omega)
      (fun _ => at_.installed (by omega) (by omega)) (at_.unrestored (by omega)) ?_ ?_
      (fun _ => by simpa using at_.kvmClosed (by omega) (by omega))
      (((at_.filled (by omega)).move _ _).move _ _) (by omega)
    · intro slot early
      cases slot with
      | stream i => simpa using at_.before (.stream i) (by simp [Slot.opened])
      | _ => simp [Slot.opened] at early
    · intro slot late early
      have held := at_.holding slot
      cases slot with
      | kvm => simp [Slot.heldUntil] at early
      | stream i => simp [Slot.opened] at late
      | log second =>
        -- The logs hold what the first ends held before.
        have moved := at_.holding (if second then .errors false else .serial false)
        cases second <;> simpa [Slot.opened, Slot.heldUntil] using moved
      | serial second => cases second <;> simp_all [Slot.opened, Slot.heldUntil]
      | errors second => cases second <;> simp_all [Slot.opened, Slot.heldUntil]
      | _ => simpa [Slot.opened, Slot.heldUntil] using held

theorem Inv.terminalRaw (inv : Inv w entry s) (set : Bool) (above : 17 < s.pc.stage)
    (below : s.pc.stage ≤ 21) :
    Inv w entry { s with terminal := Launcher.terminalRaw s.terminal set } := by
  cases set with
  | false => exact { core := { inv.core with }, at_ := { inv.at_ with } }
  | true =>
    have installed := inv.at_.installed (by omega) below
    have unrestored := inv.at_.unrestored (by omega)
    refine ⟨{ inv.core with mode := ?_, guarded := fun _ => ⟨installed, unrestored⟩ }, ?_⟩
    · simp [Launcher.terminalRaw]
    · exact { inv.at_ with cooked := fun outside => by dsimp only at outside; omega }

theorem Inv.setTerminal (inv : Inv w entry s) (here : s.pc = .terminal) (a : Answers) :
    Inv w entry (s.setTerminal a) := by
  have early : s.pc.stage ≤ 21 := by simp [here, Pc.stage]
  have onward : Inv w entry (s.goto .streams) :=
    inv.goto (by simp [here, Pc.stage]) (by rw [here]; decide)
  rw [Launch.setTerminal]
  split
  · exact onward
  · split
    · exact inv.giveUp early
    · split
      · dsimp only
        split
        · exact onward.terminalRaw a.raw (by simp [Launch.goto, Pc.stage])
            (by simp [Launch.goto, Pc.stage])
        · exact inv.giveUp early
      · exact onward

/-- The standard streams that reopen get the next numbers. -/
theorem openStreams_spec {table : Table} (reopens : Fin 3 → Bool) (filled : Filled table)
    (empty : ∀ i, table.var (.stream i) = none) :
    (∀ kept, Owns kept Slot.descriptor table →
      Owns kept Slot.descriptor (openStreams table reopens)) ∧
    Filled (openStreams table reopens) ∧
    ∀ slot, (∀ i, slot ≠ .stream i) → (openStreams table reopens).var slot = table.var slot := by
  -- One stream, with the next ones still empty.
  have one : ∀ (t : Table) (i : Fin 3), Filled t → t.var (.stream i) = none →
      (∀ kept, Owns kept Slot.descriptor t → Owns kept Slot.descriptor (streamOpen t reopens i)) ∧
      Filled (streamOpen t reopens i) ∧
      ∀ slot, slot ≠ .stream i → (streamOpen t reopens i).var slot = t.var slot := by
    intro t i filled empty
    rw [streamOpen]
    split
    · refine ⟨fun _ owns => owns.openInto empty, filled.openInto _ _, ?_⟩
      intro slot other
      simp [openSlot, other]
    · exact ⟨fun _ => id, filled, fun _ _ => rfl⟩
  obtain ⟨owns, filled, same⟩ := one table 0 filled (empty 0)
  have second := (same (.stream 1) (by decide)).trans (empty 1)
  have third := (same (.stream 2) (by decide)).trans (empty 2)
  obtain ⟨owns', filled, same'⟩ := one _ 1 filled second
  obtain ⟨owns'', filled, same''⟩ := one _ 2 filled ((same' _ (by decide)).trans third)
  refine ⟨fun kept owned => owns'' kept (owns' kept (owns kept owned)), filled, fun slot other => ?_⟩
  rw [← same slot (other 0), ← same' slot (other 1), ← same'' slot (other 2)]
  rfl

theorem Inv.openStreams (inv : Inv w entry s) (here : s.pc = .streams) (reopens : Fin 3 → Bool) :
    Inv w entry { s with table := Launcher.openStreams s.table reopens, pc := .fork } := by
  have at_ : At w s 18 := by simpa [here, Pc.stage] using inv.at_
  obtain ⟨owns, filled, same⟩ := openStreams_spec reopens (at_.filled (by omega))
    (fun i => at_.before (.stream i) (by simp [Slot.opened]))
  refine ⟨inv.core.withTable owns ?_, ?_⟩
  · rw [same .root (by simp)]
    exact id
  · show At w _ 19
    have advanced : At w s 19 := at_.advance (by omega) (by decide)
    exact { advanced with
      before := fun slot early => by have := slot.opened_le; omega
      holding := by
        intro slot late early
        have other : ∀ i, slot ≠ .stream i := by
          rintro i rfl
          simp [Slot.heldUntil] at early
        rw [same slot other]
        exact advanced.holding slot late early
      after := fun slot late => by have := slot.le_closed; omega
      kvmClosed := fun above below => by
        rw [same .kvm (by simp)]
        exact advanced.kvmClosed above below
      filled := fun _ => filled }

theorem Inv.startChild (inv : Inv w entry s) (here : s.pc = .fork) (ok : Bool) :
    Inv w entry (s.startChild ok) := by
  have at_ : At w s 19 := by simpa [here, Pc.stage] using inv.at_
  have installed := at_.installed (by omega) (by omega)
  have unrestored := at_.unrestored (by omega)
  rw [Launch.startChild]
  split
  · exact inv.giveUp (by simp [here, Pc.stage])
  · refine ⟨{ inv.core with guarded := fun _ => ⟨installed, unrestored⟩ }, ?_⟩
    show At w _ 20
    exact .middle (by omega) (by omega) (fun _ => installed) unrestored
      (fun _ => at_.kvmClosed (by omega) (by omega))

theorem Inv.closeMiddle (inv : Inv w entry s) {slots : List Slot} (above : 20 ≤ s.pc.stage)
    (below : s.pc.stage ≤ 21) (further : s.pc.stage ≤ pc.stage) (end_ : pc.stage ≤ 25)
    (root : Slot.root ∉ slots) :
    Inv w entry { s with table := s.table.closeAll slots, pc := pc } where
  core := by
    refine inv.core.withTable (fun _ owns => owns.closeAll slots) ?_
    rw [var_closeAll, if_neg root]
    exact id
  at_ := by
    refine .middle (Nat.le_trans above further) end_ ?_ (inv.at_.unrestored (by omega)) ?_
    · exact fun _ => inv.at_.installed (by omega) below
    · intro _
      rw [var_closeAll]
      split
      · rfl
      · exact inv.at_.kvmClosed (by omega) below

theorem Inv.leaveRelay (inv : Inv w entry s) (early : s.pc.stage ≤ 23) (result : Nat)
    (receivedExit : Bool) : Inv w entry (s.leaveRelay result receivedExit) where
  core := { inv.core with }
  at_ := show At w _ 23 from
    .middle (by omega) (by omega) (by omega) (inv.at_.unrestored (by omega)) (by omega)

theorem Inv.flags (inv : Inv w entry s) {h : Handling} (actions : h.actions = s.handling.actions)
    (old : h.old = s.handling.old) (restored : h.restored = s.handling.restored) :
    Inv w entry { s with handling := h } where
  core := { inv.core with
    actions := fun signal => by
      dsimp only
      rw [actions, old, restored]
      exact inv.core.actions signal
    saved := by
      dsimp only
      rw [old]
      exact inv.core.saved
    count := by
      dsimp only
      rw [old, restored]
      exact inv.core.count
    guarded := by
      dsimp only
      rw [old, restored]
      exact inv.core.guarded }
  at_ := { inv.at_ with
    uninstalled := by rw [old]; exact inv.at_.uninstalled
    installed := by rw [old]; exact inv.at_.installed
    unrestored := by rw [restored]; exact inv.at_.unrestored
    restored := by rw [restored, old]; exact inv.at_.restored }

theorem Inv.terminalRestore (inv : Inv w entry s) (set : Bool) :
    Inv w entry { s with terminal := Launcher.terminalRestore s.terminal set } := by
  rw [Launcher.terminalRestore]
  split
  · refine ⟨{ inv.core with mode := fun _ => rfl, guarded := ?_ }, ?_⟩
    · rintro (running | ⟨-, raw⟩)
      · exact inv.core.guarded (.inl running)
      · cases raw
    · exact { inv.at_ with cooked := fun _ => rfl }
  · exact inv

theorem Inv.resume (inv : Inv w entry s) (here : s.pc = .relay) (a : Answers) :
    Inv w entry (s.resume a) ∧ (s.resume a).pc = .relay := by
  have stopped : ∀ t : Launch, Inv w entry t → t.pc = .relay →
      Inv w entry (if t.handling.continued then
        let raw := t.terminal.active && a.foreground && a.raw
        { t with terminal := Launcher.terminalRaw t.terminal raw,
                 handling := { t.handling with continued := false,
                                               resized := t.handling.resized || raw } }
        else t) := by
    intro t inv here
    split
    · have raw := inv.terminalRaw (t.terminal.active && a.foreground && a.raw)
        (by simp [here, Pc.stage]) (by simp [here, Pc.stage])
      exact raw.flags rfl rfl rfl
    · exact inv
  rw [Launch.resume]
  constructor
  · split
    · have restored := inv.terminalRestore a.stopRestored
      exact stopped _ (restored.flags rfl rfl rfl) here
    · exact stopped s inv here
  · split <;> dsimp only <;> split <;> exact here

theorem Inv.relay (inv : Inv w entry s) (here : s.pc = .relay) (a : Answers) :
    Inv w entry (s.relay a) := by
  rw [Launch.relay]
  split
  · exact inv.leaveRelay (by simp [here, Pc.stage]) _ _
  · obtain ⟨resumed, still⟩ := inv.resume here a
    have noRoot : Slot.root ∉ drainedSlots a.drained := by simp [drainedSlots]
    have drained : Inv w entry { s.resume a with
        table := (s.resume a).table.closeAll (drainedSlots a.drained) } := by
      have closed : Inv w entry { s.resume a with
          table := (s.resume a).table.closeAll (drainedSlots a.drained), pc := .relay } :=
        resumed.closeMiddle (by simp [still, Pc.stage]) (by simp [still, Pc.stage])
          (by simp [still]) (by decide) noRoot
      rwa [← still] at closed
    dsimp only
    split
    · exact drained
    · exact drained.leaveRelay (by simp [still, Pc.stage]) _ _

/-! ### The cleanup -/

theorem Inv.reportFailure (inv : Inv w entry s) (here : s.pc = .fail) :
    Inv w entry s.reportFailure := by
  have unrestored := inv.at_.unrestored (by simp [here, Pc.stage])
  have at_ : At w s 23 := .middle (by omega) (by omega) (by omega) unrestored (by omega)
  rw [Launch.reportFailure]
  split
  all_goals exact { core := { inv.core with }, at_ := { at_ with } }

theorem Inv.reaped (inv : Inv w entry s) (above : 23 ≤ s.pc.stage) (below : s.pc.stage ≤ 25)
    {child : ChildState} (gone : child ≠ .running) :
    Inv w entry { s with child := child, pc := .restoreTerminal } where
  core := { inv.core with
    guarded := fun busy => inv.core.guarded (busy.imp (fun running => absurd running gone) id) }
  at_ := show At w _ 26 from
    .late (by omega) gone (fun _ => by omega) (fun _ => inv.at_.unrestored (by omega)) (by omega)
      (fun slot late => by have := slot.le_closed; omega) (by omega)

theorem Inv.reap (inv : Inv w entry s) {round : Nat} (here : s.pc = .reap round) (ok : Bool) :
    Inv w entry (s.reap round ok) := by
  have stage : s.pc.stage = 24 := by rw [here]; rfl
  rw [Launch.reap]
  split
  · exact inv.reaped (by omega) (by omega) (by simp)
  · split
    · exact inv.goto (Nat.le_of_eq stage) (fun t _ above => stage ▸ above)
    · exact inv.goto (by rw [stage]; decide) (by rw [stage]; decide)

theorem Inv.restoreTerminal (inv : Inv w entry s) (here : s.pc = .restoreTerminal) {set : Bool}
    (granted : w.terminal → set = true) :
    Inv w entry { s with terminal := Launcher.terminalRestore s.terminal set,
                         pc := .restoreHandlers } := by
  have restored := inv.terminalRestore set
  have cooked (calm : w.terminal) : (Launcher.terminalRestore s.terminal set).raw = false := by
    rw [Launcher.terminalRestore, granted calm]
    split
    · rfl
    next other => simpa using other
  have at_ : At w { s with terminal := Launcher.terminalRestore s.terminal set } 26 := by
    simpa [here, Pc.stage] using restored.at_
  refine ⟨{ restored.core with }, ?_⟩
  show At w _ 27
  exact .late (by omega) (at_.reaped (by omega)) (fun calm _ => cooked calm) (by omega) (by omega)
    (fun slot late => by have := slot.le_closed; omega) (by omega)

/-- One handler goes back to the action that was saved for it. -/
theorem Inv.restore (inv : Inv w entry s) (here : s.pc = .restoreHandlers) :
    Inv w entry s.restore := by
  have at_ : At w s 27 := by simpa [here, Pc.stage] using inv.at_
  have calm (granted : w.terminal) := at_.cooked (.inr ⟨granted, by omega⟩)
  have gone := at_.reaped (by omega)
  have few := inv.core.few
  rw [Launch.restore]
  split
  next signal action found saved =>
    have index := getElem?_handledSignals.mp found
    obtain ⟨below, -⟩ := List.getElem?_eq_some_iff.mp saved
    -- What was saved is the action on entry.
    have original : action = entry.handling.actions signal := by
      rw [inv.core.saved, List.getElem?_map, List.getElem?_take_of_lt below, found] at saved
      exact (Option.some.inj saved).symm
    refine ⟨{ inv.core with actions := ?_, count := ?_, guarded := ?_ }, ?_⟩
    · intro other
      simp only [restoreHandler, Handling.set, Function.update_apply]
      by_cases same : other = signal
      · subst same
        have done : ¬ (s.handling.restored + 1 ≤ other.index ∧
            other.index < s.handling.old.length) := by omega
        rw [if_pos rfl, original]
        exact (if_neg done).symm
      · have different : other.index ≠ s.handling.restored := by
          intro equal
          have := getElem?_handledSignals.mpr equal
          rw [found] at this
          exact same (Option.some.inj this).symm
        rw [if_neg same, inv.core.actions]
        exact if_congr (by omega) rfl rfl
    · exact below
    · rintro (running | ⟨granted, raw⟩)
      · exact absurd running gone
      · simp [calm granted] at raw
    · simp only [here]
      exact .late (by decide) gone (fun granted _ => calm granted) (by simp [Pc.stage])
        (by simp [Pc.stage])
        (fun slot late => by have := slot.le_closed; simp only [Pc.stage] at late; omega)
        (by simp [Pc.stage])
  next none_ =>
    have all : s.handling.restored = s.handling.old.length := by
      by_contra more
      have below : s.handling.restored < s.handling.old.length :=
        Nat.lt_of_le_of_ne inv.core.count more
      have within : s.handling.restored < handledSignals.length := Nat.lt_of_lt_of_le below few
      exact none_ _ _ (List.getElem?_eq_getElem within) (List.getElem?_eq_getElem below)
    refine ⟨{ inv.core with }, ?_⟩
    show At w _ 28
    exact .late (by omega) gone (fun granted _ => calm granted) (by omega) (fun _ => all)
      (fun slot late => by have := slot.le_closed; omega) (by omega)

theorem At.calm (at_ : At w s k) (late : 27 ≤ k) (granted : w.terminal) : s.terminal.raw = false :=
  at_.cooked (.inr ⟨granted, late⟩)

theorem Core.walk (core : Core w entry s) {refusals : Refusals (List UInt8)}
    (lists : w.listing → ∀ p, refusals.list p = true → refusals.copied p = false)
    (contents : Contents) :
    ∃ kept, Owns kept Slot.descriptor { s.table with
        fds := walkContents ⟨.privateEntry, true⟩ copyDescriptor refusals contents s.table.fds } ∧
      Grows copyDescriptor entry.table.fds kept ∧
      (w.listing → kept.entry = entry.table.fds.entry) := by
  obtain ⟨kept, owns, grows, same⟩ := core.owns
  obtain ⟨kept', owns', grows', same'⟩ := owns.grow
    (walkContents_grows ⟨.privateEntry, true⟩ copyDescriptor refusals contents s.table.fds)
  refine ⟨kept', owns', grows.trans grows', fun granted => ?_⟩
  rw [same' (walkContents_entry refusals contents _ (lists granted)), same granted]

theorem Inv.emptyDirectory (inv : Inv w entry s) (here : s.pc = .removeContents)
    (opened : s.table.var .root ≠ none) {refusals : Refusals (List UInt8)}
    (removes : w.files → refusals = Refusals.none)
    (lists : w.listing → ∀ p, refusals.list p = true → refusals.copied p = false) :
    Inv w entry (s.emptyDirectory refusals) := by
  have changed := inv.change (Launcher.removeContents refusals) opened
  have at_ : At w s 31 := by simpa [here, Pc.stage] using inv.at_
  obtain ⟨kept, owns, rest⟩ :=
    inv.core.walk lists ((s.files.name.bind s.files.contents).getD .nil)
  refine ⟨{ changed.core with owns := ⟨kept, owns.closeOf .root, rest⟩, unwritten := ?_ }, ?_⟩
  · -- Nothing is refused, so the directory is empty.
    intro granted d named _
    rw [Launch.emptyDirectory, name_change] at named
    obtain ⟨c, made⟩ := Option.ne_none_iff_exists'.mp (inv.core.made d named)
    rw [Launch.emptyDirectory, contents_change, if_pos named, made, Option.map_some,
      removes granted, removeContents_none]
  · show At w _ 32
    refine .late (by omega) (at_.reaped (by omega)) (fun granted _ => at_.calm (by omega) granted)
      (by omega) (fun _ => at_.restored (by omega)) ?_ (by omega)
    intro slot late
    rw [Launch.emptyDirectory, var_closeOf]
    split
    · rfl
    next other =>
      refine at_.after slot ?_
      cases slot <;> simp_all [Slot.closed]

theorem Inv.skipContents (inv : Inv w entry s) (here : s.pc = .removeContents)
    (unopened : s.table.var .root = none) : Inv w entry (s.goto .removeDirectory) := by
  have at_ : At w s 31 := by simpa [here, Pc.stage] using inv.at_
  refine ⟨{ inv.core with }, ?_⟩
  show At w _ 32
  refine .late (by omega) (at_.reaped (by omega)) (fun granted _ => at_.calm (by omega) granted)
    (by omega) (fun _ => at_.restored (by omega)) ?_ (by omega)
  intro slot late
  by_cases root : slot = .root
  · exact root ▸ unopened
  · refine at_.after slot ?_
    cases slot <;> simp_all [Slot.closed]

theorem Inv.removeDirectory (inv : Inv w entry s) (here : s.pc = .removeDirectory) {rmdir : Bool}
    (removes : w.files → rmdir = true) :
    Inv w entry { s with files := removePrivate s.files rmdir, pc := .closeShare } := by
  have at_ : At w s 32 := by simpa [here, Pc.stage] using inv.at_
  have closed := at_.after .root (by decide)
  have late {f : Files} (unnamed : w.files → f.name = none) :
      At w { s with files := f, pc := .closeShare } 33 := by
    refine .late (by omega) (at_.reaped (by omega)) (fun granted _ => at_.calm (by omega) granted)
      (by omega) (fun _ => at_.restored (by omega)) ?_ (fun granted _ => unnamed granted)
    intro slot early
    refine at_.after slot ?_
    cases slot <;> simp_all [Slot.closed]
  rw [removePrivate]
  cases named : s.files.name with
  | none => exact ⟨{ inv.core with }, late fun _ => named⟩
  | some d =>
    dsimp only
    split
    next gone =>
      refine ⟨{ inv.core with
        untouched := ?_, others := ?_, fresh := ?_, made := ?_, unwritten := ?_ }, late fun _ => rfl⟩
      · intro e there
        have other : e ≠ d := by
          rintro rfl
          exact there (inv.core.fresh e named)
        simpa [Files.set, other] using inv.core.untouched e there
      · intro e wrong
        cases wrong
      · intro e wrong
        cases wrong
      · intro granted e _
        by_cases same : e = d
        · simp [Files.set, same, inv.core.fresh d named]
        · have other : s.files.name ≠ some e := by
            rw [named]
            exact fun equal => same (Option.some.inj equal).symm
          simpa [Files.set, same] using inv.core.others granted e other
      · intro _ e wrong
        cases wrong
    next stays =>
      -- It stays only if something is left in it or the kernel refuses.
      refine ⟨{ inv.core with }, late fun granted => absurd ?_ stays⟩
      rw [inv.core.unwritten granted d named closed, removes granted]
      rfl

/-! ### Signals -/

theorem Core.installed (core : Core w entry s)
    (busy : s.child = .running ∨ w.terminal ∧ s.terminal.raw = true) (signal : HandledSignal) :
    s.handling.actions signal = installedAction signal := by
  obtain ⟨all, unrestored⟩ := core.guarded busy
  have := signal.index_lt
  rw [core.actions, if_pos (by omega)]

theorem Core.idle (core : Core w entry s) {signal : HandledSignal}
    (default : s.handling.actions signal = .default) :
    ¬(s.child = .running ∨ w.terminal ∧ s.terminal.raw = true) := by
  intro busy
  rw [core.installed busy, installedAction] at default
  split at default <;> cases default

theorem Inv.deliver (inv : Inv w entry s) (signal : Signal) :
    (s.deliver signal).pc = .killed ∨ Inv w entry (s.deliver signal) := by
  rw [Launch.deliver.eq_def]
  split
  · exact .inr inv
  · cases signal with
    | other ends =>
      cases ends with
      | true => exact .inl rfl
      | false => exact .inr inv
    | handled signal =>
      dsimp only
      split
      · exact .inr inv
      · refine .inr (inv.flags ?_ ?_ ?_)
        all_goals
          rw [caughtSignal.eq_def]
          split <;> rfl
      · split
        · exact .inl rfl
        · exact .inr inv

end Launch

end LashOs.Launcher
