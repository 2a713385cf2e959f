import LashOs.Base.Ring
import LashOs.Console.Queue

/-!
# Diagnostic logs

`struct sb_log` keeps the end of what the machine or the guest's kernel wrote: `log_keep` adds a
chunk, `log_drain` adds what can be read, and `log_print` writes the log to the standard error
stream. The write position wraps around, and a chunk as large as the log replaces it.
-/
namespace LashOs.Console

open Base

/-- `SB_LOG_TAIL` -/
def sbLogTail : Nat := 4096

/-- `struct sb_log`; of the descriptor only whether it is open. -/
structure SbLog where
  isOpen : Bool
  length : Nat
  next : Nat
  data : List UInt8
  next_lt : next < sbLogTail
  cells : data.length = sbLogTail

theorem sbLogTail_pos : 0 < sbLogTail := by decide

def SbLog.empty (isOpen : Bool) : SbLog :=
  { isOpen, length := 0, next := 0, data := List.replicate sbLogTail 0, next_lt := sbLogTail_pos,
    cells := List.length_replicate }

theorem SbLog.put_cells (log : SbLog) {bytes : List UInt8}
    (fits : log.next + bytes.length ≤ sbLogTail) :
    (overwrite log.data log.next bytes).length = sbLogTail := by
  rw [length_overwrite _ _ _ (by rw [log.cells]; exact fits), log.cells]

/-- One turn of the loop in `log_keep`. -/
def SbLog.put (log : SbLog) (bytes : List UInt8) (fits : log.next + bytes.length ≤ sbLogTail) :
    SbLog :=
  { isOpen := log.isOpen
    length := if log.length + bytes.length > sbLogTail then sbLogTail else log.length + bytes.length
    next := (log.next + bytes.length) % sbLogTail
    data := overwrite log.data log.next bytes
    next_lt := Nat.mod_lt _ sbLogTail_pos
    cells := log.put_cells fits }

variable {data : List UInt8}

theorem length_lastBytes (large : sbLogTail ≤ data.length) :
    (slice data (data.length - sbLogTail) sbLogTail).length = sbLogTail :=
  length_slice _ _ _ (by omega)

theorem SbLog.replace_cells (log : SbLog) (large : sbLogTail ≤ data.length) :
    (overwrite log.data 0 (slice data (data.length - sbLogTail) sbLogTail)).length = sbLogTail := by
  rw [length_overwrite _ _ _ (by rw [length_lastBytes large, log.cells, Nat.zero_add]), log.cells]

/-- The case of `log_keep` for a chunk that fills the log. -/
def SbLog.replace (log : SbLog) (data : List UInt8) (large : sbLogTail ≤ data.length) : SbLog :=
  { isOpen := log.isOpen
    length := sbLogTail
    next := 0
    data := overwrite log.data 0 (slice data (data.length - sbLogTail) sbLogTail)
    next_lt := sbLogTail_pos
    cells := log.replace_cells large }

/-- How much of the data goes to the end of the cells. -/
def SbLog.piece (log : SbLog) (data : List UInt8) : Nat :=
  if sbLogTail - log.next < data.length then sbLogTail - log.next else data.length

theorem SbLog.piece_le (log : SbLog) (data : List UInt8) : log.piece data ≤ data.length := by
  unfold SbLog.piece
  split <;> omega

theorem SbLog.piece_pos (log : SbLog) (more : data ≠ []) : 0 < log.piece data := by
  have := log.next_lt
  have := List.length_pos_iff.mpr more
  unfold SbLog.piece
  split <;> omega

theorem SbLog.piece_fits (log : SbLog) (data : List UInt8) :
    log.next + (data.take (log.piece data)).length ≤ sbLogTail := by
  have := log.next_lt
  rw [List.length_take, Nat.min_eq_left (log.piece_le data)]
  unfold SbLog.piece
  split <;> omega

def logKeepLoop (log : SbLog) (data : List UInt8) : SbLog :=
  if _more : data ≠ [] then
    logKeepLoop (log.put (data.take (log.piece data)) (log.piece_fits data))
      (data.drop (log.piece data))
  else log
  termination_by data.length
  decreasing_by
    have := log.piece_pos _more
    have := log.piece_le data
    rw [List.length_drop]
    omega

def logKeep (log : SbLog) (data : List UInt8) : SbLog :=
  if large : sbLogTail ≤ data.length then log.replace data large else logKeepLoop log data

/-! ### Reading -/

/-- What a `read` of the log's descriptor gives. -/
inductive DrainRead where
  | data (bytes : List UInt8)
  | interrupted
  | again
  | failed
  deriving DecidableEq, Repr

/-- The turns of the loop in `log_drain`, each with its `read`. -/
def logDrainLoop : List DrainRead → SbLog → SbLog
  | [], log => log
  | result :: reads, log =>
    if log.isOpen then
      match result with
      | .data (b :: rest) => logDrainLoop reads (logKeep log ((b :: rest).take sbChunk))
      | .interrupted => logDrainLoop reads log
      | .again => log
      | .data [] => { log with isOpen := false }
      | .failed => { log with isOpen := false }
    else log

/-- At most 64 reads are made. -/
def logDrain (log : SbLog) (reads : List DrainRead) : SbLog := logDrainLoop (reads.take 64) log

/-! ### Writing -/

/-- What one `write` does; `interrupted` is `EINTR`. -/
inductive WriteAnswer where
  | wrote (count : Nat)
  | interrupted
  | failed
  deriving DecidableEq, Repr

/-- `sb_write_all`: what it returns, the bytes that were written and the answers that are left. It
has not returned when the answers run out. -/
def sbWriteAll : List WriteAnswer → List UInt8 → Option (Int × List UInt8 × List WriteAnswer)
  | answers, [] => some (0, [], answers)
  | [], _ :: _ => none
  | .interrupted :: answers, b :: bytes => sbWriteAll answers (b :: bytes)
  | .failed :: answers, _ :: _ => some (-1, [], answers)
  | .wrote 0 :: answers, _ :: _ => some (-1, [], answers)
  | .wrote (count + 1) :: answers, b :: bytes =>
    (sbWriteAll answers (bytes.drop count)).map fun (result, written, left) =>
      (result, b :: bytes.take count ++ written, left)

/-- The pieces that `log_print` writes. -/
def SbLog.pieces (log : SbLog) : List (List UInt8) :=
  if log.length < sbLogTail then [slice log.data 0 log.length]
  else [slice log.data log.next (sbLogTail - log.next), slice log.data 0 log.next]

/-- The pieces one behind the other, whatever `sb_write_all` returns. -/
def writePieces : List (List UInt8) → List WriteAnswer → Option (List UInt8 × List WriteAnswer)
  | [], answers => some ([], answers)
  | piece :: more, answers =>
    match sbWriteAll answers piece with
    | none => none
    | some (_, written, left) =>
      (writePieces more left).map fun (later, left) => (written ++ later, left)

/-- The bytes that `log_print` emits and the answers that are left. -/
def logPrint (log : SbLog) (answers : List WriteAnswer) : Option (List UInt8 × List WriteAnswer) :=
  writePieces log.pieces answers

/-! ### What a log holds -/

/-- The cells hold the end of the history, with the zeros of the empty log in front of it. -/
structure SbLog.Holds (log : SbLog) (history : List UInt8) : Prop where
  ring : rotated log.data log.next = (List.replicate sbLogTail 0 ++ history).rtake sbLogTail
  length : log.length = min history.length sbLogTail
  next : log.length < sbLogTail → log.next = log.length

theorem SbLog.empty_holds (isOpen : Bool) : (SbLog.empty isOpen).Holds [] where
  ring := by
    rw [List.append_nil, rtake_of_length_le (by rw [List.length_replicate])]
    exact rotated_zero _
  length := rfl
  next := fun _ => rfl

variable {log : SbLog} {history : List UInt8}

theorem SbLog.Holds.put (holds : log.Holds history) {bytes : List UInt8}
    (fits : log.next + bytes.length ≤ sbLogTail) : (log.put bytes fits).Holds (history ++ bytes) where
  ring := by
    have inside : log.next + bytes.length ≤ log.data.length := by rw [log.cells]; exact fits
    have cells := log.put_cells fits
    -- Behind the last cell `next` is the first one again, which is the same rotation.
    have wraps : rotated (overwrite log.data log.next bytes) ((log.next + bytes.length) % sbLogTail) =
        rotated (overwrite log.data log.next bytes) (log.next + bytes.length) := by
      rw [← cells]
      exact rotated_mod (by rw [cells]; exact fits)
    change rotated (overwrite log.data log.next bytes) ((log.next + bytes.length) % sbLogTail) = _
    rw [wraps, rotated_overwrite inside, holds.ring, log.cells, rtake_rtake_append,
      List.append_assoc]
  length := by
    have := holds.length
    simp only [SbLog.put, List.length_append]
    split <;> omega
  next := by
    have := holds.next
    simp only [SbLog.put]
    split
    · omega
    next small =>
      intro less
      rw [Nat.mod_eq_of_lt (by omega)]
      omega

theorem SbLog.Holds.replace (holds : log.Holds history) (large : sbLogTail ≤ data.length) :
    (log.replace data large).Holds (history ++ data) where
  ring := by
    have last : slice data (data.length - sbLogTail) sbLogTail = data.rtake sbLogTail := by
      rw [slice, List.rtake, List.take_of_length_le]
      rw [List.length_drop]
      omega
    have whole : overwrite log.data 0 (slice data (data.length - sbLogTail) sbLogTail) =
        data.rtake sbLogTail := by
      rw [overwrite, length_lastBytes large, Nat.zero_add, ← log.cells, List.drop_length,
        List.append_nil, List.take_zero, List.nil_append, log.cells, last]
    change rotated (overwrite log.data 0 _) 0 = _
    rw [rotated_zero, whole, ← List.append_assoc, rtake_append_of_length_le large]
  length := by
    have := holds.length
    simp only [SbLog.replace, List.length_append]
    omega
  next := fun less => absurd less (Nat.lt_irrefl sbLogTail)

theorem logKeepLoop_holds (data : List UInt8) (holds : log.Holds history) :
    (logKeepLoop log data).Holds (history ++ data) := by
  fun_induction logKeepLoop log data generalizing history with
  | case1 log data more ih =>
    have after := ih (holds.put (log.piece_fits data))
    rwa [List.append_assoc, List.take_append_drop] at after
  | case2 log data done =>
    rw [not_not.mp done, List.append_nil]
    exact holds

theorem logKeep_holds (data : List UInt8) (holds : log.Holds history) :
    (logKeep log data).Holds (history ++ data) := by
  unfold logKeep
  split
  next large => exact holds.replace large
  · exact logKeepLoop_holds data holds

theorem foldl_logKeep_holds (chunks : List (List UInt8)) (holds : log.Holds history) :
    (chunks.foldl logKeep log).Holds (history ++ chunks.flatten) := by
  induction chunks generalizing log history with
  | nil => simpa using holds
  | cons data chunks ih =>
    rw [List.foldl_cons, List.flatten_cons, ← List.append_assoc]
    exact ih (logKeep_holds data holds)

theorem SbLog.Holds.pieces (holds : log.Holds history) :
    log.pieces.flatten = history.rtake sbLogTail := by
  have size := holds.length
  unfold SbLog.pieces
  split
  next short =>
    -- Nothing was overwritten yet: behind the zeros stands the whole history.
    have all : history.length < sbLogTail := by omega
    have same : log.next = history.length := by rw [holds.next short]; omega
    have split := holds.ring
    rw [rotated, same, List.rtake, List.length_append, List.length_replicate,
      Nat.add_sub_cancel_left, List.drop_append_of_le_length (by rw [List.length_replicate]; omega)] at split
    have written := (List.append_inj split (by
      rw [List.length_drop, List.length_drop, log.cells, List.length_replicate])).2
    rw [rtake_of_length_le (Nat.le_of_lt all), List.flatten_singleton, slice, List.drop_zero,
      show log.length = history.length by omega]
    exact written
  next full =>
    -- The oldest byte is the one at `next`: the two pieces are the cells in their order.
    have long : sbLogTail ≤ history.length := by omega
    have rest : slice log.data log.next (sbLogTail - log.next) = log.data.drop log.next := by
      rw [slice, List.take_of_length_le]
      rw [List.length_drop, log.cells]
    rw [List.flatten_cons, List.flatten_singleton, rest, slice, List.drop_zero,
      ← rtake_append_of_length_le long]
    exact holds.ring

/-! ### Draining -/

/-- The bytes that are read before the log is closed or has to wait. -/
def drained : List DrainRead → List UInt8
  | .data (b :: rest) :: reads => (b :: rest).take sbChunk ++ drained reads
  | .interrupted :: reads => drained reads
  | _ => []

theorem logKeep_isOpen (log : SbLog) (data : List UInt8) : (logKeep log data).isOpen = log.isOpen := by
  have looped : ∀ log data, (logKeepLoop log data).isOpen = log.isOpen := by
    intro log data
    fun_induction logKeepLoop log data with
    | case1 log data more ih => exact ih
    | case2 => rfl
  unfold logKeep
  split
  · rfl
  · exact looped log data

theorem logDrainLoop_holds (reads : List DrainRead) (opened : log.isOpen = true)
    (holds : log.Holds history) : (logDrainLoop reads log).Holds (history ++ drained reads) := by
  fun_induction logDrainLoop reads log generalizing history with
  | case1 log => simpa [drained] using holds
  | case2 log reads _ b rest ih =>
    rw [drained, ← List.append_assoc]
    exact ih ((logKeep_isOpen _ _).trans opened) (logKeep_holds _ holds)
  | case3 log reads _ ih => exact ih opened holds
  | case4 => simpa [drained] using holds
  | case5 => simpa [drained] using ⟨holds.ring, holds.length, holds.next⟩
  | case6 => simpa [drained] using ⟨holds.ring, holds.length, holds.next⟩
  | case7 log _ _ closed => exact absurd opened closed

theorem logDrain_holds (reads : List DrainRead) (opened : log.isOpen = true)
    (holds : log.Holds history) :
    (logDrain log reads).Holds (history ++ drained (reads.take 64)) :=
  logDrainLoop_holds (reads.take 64) opened holds

/-! ### Printing -/

/-- A `write` that transfers at least one byte or is made again. -/
def WriteAnswer.Succeeds : WriteAnswer → Prop
  | .wrote count => count ≠ 0
  | .interrupted => True
  | .failed => False

def WriteAnswer.transfers : WriteAnswer → Bool
  | .wrote _ => true
  | _ => false

variable {answers : List WriteAnswer}

theorem sbWriteAll_written (succeed : ∀ a ∈ answers, a.Succeeds) {bytes written : List UInt8}
    {result : Int} {left : List WriteAnswer}
    (returned : sbWriteAll answers bytes = some (result, written, left)) :
    written = bytes ∧ left <:+ answers := by
  fun_induction sbWriteAll answers bytes generalizing written result left with
  | case1 answers =>
    cases returned
    exact ⟨rfl, List.suffix_refl _⟩
  | case2 => cases returned
  | case3 answers b bytes ih =>
    obtain ⟨whole, suffix⟩ := ih (fun a member => succeed a (by simp [member])) returned
    exact ⟨whole, suffix.trans (List.suffix_cons _ _)⟩
  | case4 => exact absurd (succeed .failed (by simp)) id
  | case5 => exact absurd rfl (succeed (.wrote 0) (by simp))
  | case6 count answers b bytes ih =>
    obtain ⟨⟨result', written', left'⟩, rest, same⟩ := Option.map_eq_some_iff.mp returned
    obtain ⟨whole, suffix⟩ := ih (fun a member => succeed a (by simp [member])) rest
    cases same
    refine ⟨?_, suffix.trans (List.suffix_cons _ _)⟩
    rw [whole, List.cons_append, List.take_append_drop]

theorem sbWriteAll_returns (succeed : ∀ a ∈ answers, a.Succeeds) (bytes : List UInt8)
    (enough : bytes.length ≤ answers.countP WriteAnswer.transfers) :
    ∃ left, sbWriteAll answers bytes = some (0, bytes, left) ∧
      answers.countP WriteAnswer.transfers ≤ left.countP WriteAnswer.transfers + bytes.length := by
  -- A transfer takes one byte at least, so that those that are left suffice for the other bytes.
  fun_induction sbWriteAll answers bytes with
  | case1 answers => exact ⟨answers, rfl, Nat.le_refl _⟩
  | case2 => simp at enough
  | case3 answers b bytes ih =>
    rw [List.countP_cons_of_neg (by simp [WriteAnswer.transfers])] at enough ⊢
    exact ih (fun a member => succeed a (by simp [member])) enough
  | case4 => exact absurd (succeed .failed (by simp)) id
  | case5 => exact absurd rfl (succeed (.wrote 0) (by simp))
  | case6 count answers b bytes ih =>
    rw [List.countP_cons_of_pos (by simp [WriteAnswer.transfers]), List.length_cons] at enough ⊢
    obtain ⟨left, rest, fewer⟩ := ih (fun a member => succeed a (by simp [member]))
      (by rw [List.length_drop]; omega)
    refine ⟨left, ?_, ?_⟩
    · rw [rest, Option.map_some]
      dsimp only
      rw [List.cons_append, List.take_append_drop]
    · rw [List.length_drop] at fewer
      omega

theorem writePieces_written (succeed : ∀ a ∈ answers, a.Succeeds) (pieces : List (List UInt8))
    {out : List UInt8} {left : List WriteAnswer}
    (returned : writePieces pieces answers = some (out, left)) : out = pieces.flatten := by
  induction pieces generalizing answers out left with
  | nil =>
    cases returned
    rfl
  | cons piece more ih =>
    rw [writePieces] at returned
    rcases first : sbWriteAll answers piece with _ | ⟨result, written, left'⟩
    · rw [first] at returned
      cases returned
    · rw [first] at returned
      obtain ⟨⟨later, last⟩, rest, same⟩ := Option.map_eq_some_iff.mp returned
      obtain ⟨whole, suffix⟩ := sbWriteAll_written succeed first
      have tail := ih (fun a member => succeed a (suffix.subset member)) rest
      cases same
      rw [List.flatten_cons, whole, tail]

theorem writePieces_returns (succeed : ∀ a ∈ answers, a.Succeeds) (pieces : List (List UInt8))
    (enough : pieces.flatten.length ≤ answers.countP WriteAnswer.transfers) :
    ∃ left, writePieces pieces answers = some (pieces.flatten, left) := by
  induction pieces generalizing answers with
  | nil => exact ⟨answers, rfl⟩
  | cons piece more ih =>
    rw [List.flatten_cons, List.length_append] at enough
    obtain ⟨left, first, fewer⟩ := sbWriteAll_returns succeed piece (by omega)
    obtain ⟨-, suffix⟩ := sbWriteAll_written succeed first
    obtain ⟨last, rest⟩ := ih (fun a member => succeed a (suffix.subset member)) (by omega)
    refine ⟨last, ?_⟩
    rw [writePieces, first]
    dsimp only
    rw [rest, List.flatten_cons]
    rfl

/-- After any chunks `log_print` emits the last bytes of all of them, at most as many as the log
has cells, and it returns when there are enough writes. -/
theorem logPrint_emits_tail (isOpen : Bool) (chunks : List (List UInt8)) (answers : List WriteAnswer)
    (succeed : ∀ a ∈ answers, a.Succeeds) :
    let log := chunks.foldl logKeep (SbLog.empty isOpen)
    let all := chunks.flatten
    let tail := all.drop (all.length - min all.length sbLogTail)
    (∀ out left, logPrint log answers = some (out, left) → out = tail) ∧
    (sbLogTail ≤ answers.countP WriteAnswer.transfers →
      ∃ left, logPrint log answers = some (tail, left)) := by
  intro log all tail
  have holds : log.Holds all := foldl_logKeep_holds chunks (SbLog.empty_holds isOpen)
  have printed : log.pieces.flatten = tail := by
    have cut : all.length - sbLogTail = all.length - min all.length sbLogTail := by omega
    rw [holds.pieces, List.rtake, cut]
  rw [← printed]
  refine ⟨fun out left returned => writePieces_written succeed log.pieces returned, fun enough => ?_⟩
  refine writePieces_returns succeed log.pieces (Nat.le_trans ?_ enough)
  rw [printed, List.length_drop]
  omega

theorem shortLog_printed :
    ∃ left, logPrint ([[1, 2], [], [3]].foldl logKeep (SbLog.empty true))
      (List.replicate sbLogTail (.wrote 2)) = some ([1, 2, 3], left) := by
  have succeed : ∀ a ∈ List.replicate sbLogTail (WriteAnswer.wrote 2), a.Succeeds := by
    intro a member
    rw [List.eq_of_mem_replicate member]
    exact two_ne_zero
  have enough : sbLogTail ≤
      (List.replicate sbLogTail (WriteAnswer.wrote 2)).countP WriteAnswer.transfers := by
    rw [List.countP_replicate]
    exact Nat.le_refl sbLogTail
  exact (logPrint_emits_tail true [[1, 2], [], [3]] _ succeed).2 enough

end LashOs.Console
