import Mathlib.Logic.Function.Iterate
import SqlEngine.Cli

/-! Reading lines: which part of the stream one call consumes, and what it delivers. -/
namespace SqlEngine

open Library

variable {content line after stream : Bytes} {buflen : UInt64} {room : Nat}

/-! ## One call -/

/-- The stream behind its first line. -/
def afterLine (stream : Bytes) : Bytes := (stream.dropWhile (· != 10)).tail

private theorem no_newline (free : 10 ∉ content) : ∀ c ∈ content, (c != 10) = true := by
  intro c member
  simp only [bne_iff_ne, ne_eq]
  rintro rfl
  exact free member

private theorem afterLine_terminated (free : 10 ∉ content) :
    afterLine (content ++ 10 :: after) = after := by
  rw [afterLine, List.dropWhile_append_of_pos (no_newline free)]
  rfl

private theorem afterLine_unterminated (free : 10 ∉ content) : afterLine content = [] := by
  rw [afterLine, List.dropWhile_eq_nil_iff.mpr (no_newline free)]
  rfl

/-- Every stream is empty, starts with a terminated line, or is an unterminated one. -/
theorem stream_cases (stream : Bytes) :
    (∃ content after, 10 ∉ content ∧ stream = content ++ 10 :: after) ∨ 10 ∉ stream := by
  by_cases newline : 10 ∈ stream
  · obtain ⟨content, after, split, free⟩ := List.eq_append_cons_of_mem newline
    exact .inl ⟨content, after, free, split⟩
  · exact .inr newline

private theorem takeLine_terminated (free : 10 ∉ content) (fits : content.length < room) :
    takeLine room (content ++ 10 :: after) = (content ++ [10], after) := by
  induction content generalizing room with
  | nil =>
    obtain ⟨room, rfl⟩ := Nat.exists_eq_add_of_lt fits
    simp [takeLine]
  | cons c content ih =>
    obtain ⟨different, free⟩ := not_or.mp (List.mem_cons.not.mp free)
    cases room with
    | zero => exact absurd fits (Nat.not_lt_zero _)
    | succ room =>
      rw [List.cons_append, takeLine, if_neg (Ne.symm different), ih free (by simpa using fits)]
      rfl

private theorem takeLine_cut (after : Bytes) (free : 10 ∉ content) (long : room ≤ content.length) :
    takeLine room (content ++ after) = (content.take room, content.drop room ++ after) := by
  induction content generalizing room with
  | nil =>
    obtain rfl : room = 0 := by simpa using long
    cases after <;> rfl
  | cons c content ih =>
    obtain ⟨different, free⟩ := not_or.mp (List.mem_cons.not.mp free)
    cases room with
    | zero => rfl
    | succ room =>
      rw [List.cons_append, takeLine, if_neg (Ne.symm different), ih free (by simpa using long)]
      rfl

private theorem takeLine_last (free : 10 ∉ content) (fits : content.length ≤ room) :
    takeLine room content = (content, []) := by
  induction content generalizing room with
  | nil => cases room <;> rfl
  | cons c content ih =>
    obtain ⟨different, free⟩ := not_or.mp (List.mem_cons.not.mp free)
    cases room with
    | zero => exact absurd fits (Nat.not_succ_le_zero _)
    | succ room => rw [takeLine, if_neg (Ne.symm different), ih free (by simpa using fits)]

private theorem discardLine_eq (c : UInt8) (stream : Bytes) :
    discardLine c stream = afterLine (c :: stream) := by
  induction stream generalizing c with
  | nil =>
    unfold discardLine afterLine
    by_cases newline : c = 10 <;> simp [newline]
  | cons next rest ih =>
    unfold discardLine
    by_cases newline : c = 10
    · simp [newline, afterLine]
    · have goes : discardLine next rest = afterLine (c :: next :: rest) := by
        rw [ih]
        simp [afterLine, newline]
      rw [if_neg newline]
      exact goes

private theorem no_trailing (free : 10 ∉ content) :
    ¬ (content.length > 0 ∧ content.getD (content.length - 1) 0 = 10) := by
  rintro ⟨positive, last⟩
  rw [List.getD_eq_getElem _ _ (by omega)] at last
  exact free (last ▸ List.getElem_mem _)

private theorem free_cstr (free : 10 ∉ content) : 10 ∉ cstr content :=
  fun member => free ((List.takeWhile_prefix _).subset member)

private theorem cstr_eq_self (nulFree : 0 ∉ content) : cstr content = content :=
  List.takeWhile_eq_self_iff.mpr fun c member => by
    simp only [bne_iff_ne, ne_eq]
    rintro rfl
    exact nulFree member

private theorem cstr_cut (nul : 0 ∈ content) : cstr (content ++ line) = cstr content := by
  obtain ⟨front, rest, rfl, free⟩ := List.eq_append_cons_of_mem nul
  have before : ∀ c ∈ front, (c != 0) = true := by
    intro c member
    simp only [bne_iff_ne, ne_eq]
    rintro rfl
    exact free member
  simp [cstr, List.takeWhile_append_of_pos before]

private theorem cliReadLine_fgets (wide : ¬ buflen < 2) (sized : intOfSize buflen = room + 1)
    (some_left : stream ≠ []) {stored rest : Bytes}
    (taken : takeLine room stream = (stored, rest)) :
    cliReadLine buflen stream =
      if (cstr stored).length > 0 ∧ (cstr stored).getD ((cstr stored).length - 1) 0 = 10 then
        (.stored ((cstr stored).take ((cstr stored).length - 1)), rest)
      else if rest = [] then (.stored (cstr stored), [])
      else (.tooLong, afterLine rest) := by
  have positive : ¬ intOfSize buflen ≤ 0 := by omega
  have characters : (intOfSize buflen).toNat - 1 = room := by omega
  have got : fgets (intOfSize buflen) stream = some (stored, rest) := by
    unfold fgets
    rw [if_neg positive, if_neg (fun ended => some_left ended.2), characters, taken]
  unfold cliReadLine
  rw [if_neg wide, got]
  dsimp only
  split
  · rfl
  · cases rest with
    | nil => rfl
    | cons character rest =>
      rw [if_neg (List.cons_ne_nil _ _), ← discardLine_eq]

/-- A call at a terminated line: the line is delivered when it fits with its newline and
holds no NUL byte; a NUL byte hides the newline, and the next line is discarded. -/
theorem cliReadLine_terminated (wide : ¬ buflen < 2) (sized : intOfSize buflen = room + 1)
    (free : 10 ∉ content) :
    cliReadLine buflen (content ++ 10 :: after) =
      if content.length < room then
        if 0 ∈ content then
          if after = [] then (.stored (cstr content), []) else (.tooLong, afterLine after)
        else (.stored content, after)
      else (.tooLong, after) := by
  have some_left : content ++ 10 :: after ≠ [] := by simp
  by_cases fits : content.length < room
  · rw [cliReadLine_fgets wide sized some_left (takeLine_terminated free fits), if_pos fits]
    by_cases nul : 0 ∈ content
    · rw [cstr_cut nul, if_neg (no_trailing (free_cstr free)), if_pos nul]
    · have whole : cstr (content ++ [10]) = content ++ [10] := cstr_eq_self (by simpa using nul)
      rw [whole, if_neg nul, if_pos (by simp)]
      simp
  · have cut := takeLine_cut (10 :: after) free (Nat.le_of_not_lt fits)
    have short : 10 ∉ content.take room := fun member => free (List.mem_of_mem_take member)
    have rest : 10 ∉ content.drop room := fun member => free (List.mem_of_mem_drop member)
    rw [cliReadLine_fgets wide sized some_left cut, if_neg fits,
      if_neg (no_trailing (free_cstr short)),
      if_neg (by simp), afterLine_terminated rest]

/-- A call at an unterminated last line. -/
theorem cliReadLine_unterminated (wide : ¬ buflen < 2) (sized : intOfSize buflen = room + 1)
    (free : 10 ∉ stream) (some_left : stream ≠ []) :
    cliReadLine buflen stream =
      if stream.length ≤ room then (.stored (cstr stream), []) else (.tooLong, []) := by
  by_cases fits : stream.length ≤ room
  · rw [cliReadLine_fgets wide sized some_left (takeLine_last free fits), if_pos fits,
      if_neg (no_trailing (free_cstr free)), if_pos rfl]
  · have cut := takeLine_cut [] free (Nat.le_of_not_le fits)
    have short : 10 ∉ stream.take room := fun member => free (List.mem_of_mem_take member)
    have rest : 10 ∉ stream.drop room := fun member => free (List.mem_of_mem_drop member)
    rw [List.append_nil, List.append_nil] at cut
    rw [cliReadLine_fgets wide sized some_left cut, if_neg fits,
      if_neg (no_trailing (free_cstr short)),
      if_neg (by simp; omega), afterLine_unterminated rest]

/-- A call with a buffer of no more than 2 GiB at the end of the stream. -/
theorem cliReadLine_ended (wide : ¬ buflen < 2) (sized : intOfSize buflen = room + 1)
    (positive : 0 < room) :
    cliReadLine buflen [] = (.eof, []) := by
  have refused : fgets (intOfSize buflen) [] = none := by
    unfold fgets
    rw [if_neg (by omega), if_pos ⟨by omega, rfl⟩]
  unfold cliReadLine
  rw [if_neg wide, refused]

/-- A call whose buffer length is 1 to `fgets` stores the empty line at the end of the stream. -/
theorem cliReadLine_one (wide : ¬ buflen < 2) (one : intOfSize buflen = 1) :
    cliReadLine buflen [] = (.stored [], []) := by
  have got : fgets (intOfSize buflen) [] = some ([], []) := by
    unfold fgets
    rw [one]
    rfl
  unfold cliReadLine
  rw [if_neg wide, got]
  rfl

/-! ## Every call -/

/-- The stream that the call behind `k` others starts at. -/
def callStart (buflen : UInt64) (stream : Bytes) (k : Nat) : Bytes :=
  (fun stream => (cliReadLine buflen stream).2)^[k] stream

/-- The stream behind its first `k` lines. -/
def lineStart (stream : Bytes) (k : Nat) : Bytes := afterLine^[k] stream

/-- One line lies between two points of a stream: a terminated one, or the last one. -/
def OneLine (before after : Bytes) : Prop :=
  (∃ content, 10 ∉ content ∧ before = content ++ 10 :: after) ∨
    (before ≠ [] ∧ 10 ∉ before ∧ after = [])

/-- Every call that finds a line consumes that line, and the calls go through the lines in order. -/
def ReadsLineByLine (buflen : UInt64) (stream : Bytes) : Prop :=
  ∀ k, (cliReadLine buflen (callStart buflen stream k)).1 ≠ .eof →
    OneLine (callStart buflen stream k) (callStart buflen stream (k + 1)) ∧
      callStart buflen stream k = lineStart stream k

/-- The line at the front fits in a buffer together with its newline, a NUL byte in it hides
that newline, and it is not the end of the stream. -/
def HidesNewline (size : Int) (stream : Bytes) : Prop :=
  ∃ content after, stream = content ++ 10 :: after ∧ 10 ∉ content ∧ 0 ∈ content ∧
    content.length + 1 < size ∧
    after ≠ []

private theorem callStart_succ (buflen : UInt64) (stream : Bytes) (k : Nat) :
    callStart buflen stream (k + 1) = (cliReadLine buflen (callStart buflen stream k)).2 :=
  Function.iterate_succ_apply' _ k stream

private theorem lineStart_succ (stream : Bytes) (k : Nat) :
    lineStart stream (k + 1) = afterLine (lineStart stream k) :=
  Function.iterate_succ_apply' _ k stream

private theorem afterLine_length (stream : Bytes) :
    (afterLine stream).length ≤ stream.length - 1 := by
  rw [afterLine, List.length_tail]
  exact Nat.sub_le_sub_right (List.length_dropWhile_le _ _) 1

private theorem lineStart_length (stream : Bytes) (k : Nat) :
    (lineStart stream k).length ≤ stream.length - k := by
  induction k with
  | zero => exact Nat.le_refl _
  | succ k ih =>
    have shorter := afterLine_length (lineStart stream k)
    rw [lineStart_succ]
    omega

private theorem lineStart_suffix (stream : Bytes) (k : Nat) : lineStart stream k <:+ stream := by
  induction k with
  | zero => exact List.suffix_refl _
  | succ k ih =>
    rw [lineStart_succ]
    exact ((List.tail_suffix _).trans (List.dropWhile_suffix _)).trans ih

/-- The step lemma: a call at a line whose newline is not hidden goes on to the next line. -/
theorem cliReadLine_rest (wide : ¬ buflen < 2) (sized : intOfSize buflen = room + 1)
    (visible : ¬ HidesNewline (intOfSize buflen) stream) :
    (cliReadLine buflen stream).2 = afterLine stream := by
  rcases stream_cases stream with ⟨content, after, free, rfl⟩ | free
  · rw [cliReadLine_terminated wide sized free, afterLine_terminated free]
    split
    · rename_i fits
      split
      · rename_i nul
        split
        · rename_i ended
          exact ended.symm
        · rename_i more
          exact absurd ⟨content, after, rfl, free, nul, by omega, more⟩ visible
      · rfl
    · rfl
  · rw [afterLine_unterminated free]
    by_cases ended : stream = []
    · subst stream
      by_cases positive : 0 < room
      · rw [cliReadLine_ended wide sized positive]
      · rw [cliReadLine_one wide (by omega)]
    · rw [cliReadLine_unterminated wide sized free ended]
      split <;> rfl

/-- A call that finds a line, and leaves the stream behind it, has consumed one line. -/
theorem oneLine_afterLine (some_left : stream ≠ []) : OneLine stream (afterLine stream) := by
  rcases stream_cases stream with ⟨content, after, free, rfl⟩ | free
  · exact .inl ⟨content, free, by rw [afterLine_terminated free]⟩
  · exact .inr ⟨some_left, free, afterLine_unterminated free⟩

/-- The run lemma: the calls keep to the lines as long as no newline is hidden. -/
theorem callStart_eq (wide : ¬ buflen < 2) (sized : intOfSize buflen = room + 1)
    (visible : ∀ j < k, ¬ HidesNewline (intOfSize buflen) (lineStart stream j)) :
    callStart buflen stream k = lineStart stream k := by
  induction k with
  | zero => rfl
  | succ k ih =>
    have here := ih fun j before => visible j (by omega)
    rw [callStart_succ, lineStart_succ, here]
    exact cliReadLine_rest wide sized (visible k (Nat.lt_succ_self k))

private theorem hidden_skips (wide : ¬ buflen < 2) (sized : intOfSize buflen = room + 1)
    (hidden : HidesNewline (intOfSize buflen) stream) :
    (cliReadLine buflen stream).1 ≠ .eof ∧ ¬ OneLine stream (cliReadLine buflen stream).2 := by
  obtain ⟨content, after, rfl, free, nul, fits, more⟩ := hidden
  have read : cliReadLine buflen (content ++ 10 :: after) = (.tooLong, afterLine after) := by
    rw [cliReadLine_terminated wide sized free, if_pos (by omega), if_pos nul, if_neg more]
  rw [read]
  refine ⟨LineRead.noConfusion, ?_⟩
  rintro (⟨line, lineFree, split⟩ | ⟨_, none, _⟩)
  · have same : after = afterLine after := by
      have behind := congrArg afterLine split
      rwa [afterLine_terminated free, afterLine_terminated lineFree] at behind
    have shorter := afterLine_length after
    have positive := List.length_pos_of_ne_nil more
    rw [← same] at shorter
    omega
  · exact none (List.mem_append_right _ (List.mem_cons_self ..))

private theorem several_of_reads (wide : ¬ buflen < 2) (reads : ReadsLineByLine buflen stream) :
    intOfSize buflen ≠ 1 := by
  intro one
  have visible : ∀ j < stream.length, ¬ HidesNewline (intOfSize buflen) (lineStart stream j) := by
    rintro j _ ⟨content, _, _, _, _, fits, _⟩
    omega
  have ended : callStart buflen stream stream.length = [] := by
    have sized : intOfSize buflen = ((0 : Nat) : Int) + 1 := by omega
    rw [callStart_eq wide sized visible]
    have length := lineStart_length stream stream.length
    exact List.length_eq_zero_iff.mp (by omega)
  have reads := reads stream.length
  rw [ended, cliReadLine_one wide one] at reads
  rcases (reads LineRead.noConfusion).1 with ⟨content, _, split⟩ | ⟨something, _⟩
  · simp at split
  · exact something rfl

private theorem visible_of_reads (wide : ¬ buflen < 2) (sized : intOfSize buflen = room + 1)
    (reads : ReadsLineByLine buflen stream) (k : Nat) :
    ¬ HidesNewline (intOfSize buflen) (lineStart stream k) := by
  induction k using Nat.strong_induction_on with
  | _ k ih =>
    intro hidden
    have here := callStart_eq wide sized ih
    obtain ⟨found, skips⟩ := hidden_skips wide sized hidden
    have reads := reads k
    rw [callStart_succ, here] at reads
    exact skips (reads found).1

/-- Every call consumes exactly one line if and only if the buffer is more than a NUL to
`fgets` and no line but the last one hides its newline behind a NUL byte. -/
theorem one_line_per_call_iff (buflen : UInt64) (stream : Bytes) (wide : 2 ≤ buflen) :
    ReadsLineByLine buflen stream ↔
      intOfSize buflen ≠ 1 ∧ ∀ k, ¬ HidesNewline (intOfSize buflen) (lineStart stream k) := by
  have wide : ¬ buflen < 2 := UInt64.not_lt.mpr wide
  by_cases positive : intOfSize buflen ≤ 0
  · -- `fgets` refuses such a size, and every call returns -1.
    constructor
    · intro _
      refine ⟨by omega, ?_⟩
      rintro k ⟨content, _, _, _, _, fits, _⟩
      omega
    · intro _ k found
      exact absurd (by simp [cliReadLine, wide, fgets, positive]) found
  · obtain ⟨room, sized⟩ : ∃ room : Nat, intOfSize buflen = room + 1 :=
      ⟨(intOfSize buflen - 1).toNat, by omega⟩
    constructor
    · intro reads
      exact ⟨several_of_reads wide reads, visible_of_reads wide sized reads⟩
    · rintro ⟨several, visible⟩ k found
      have here := callStart_eq (k := k) wide sized fun j _ => visible j
      rw [callStart_succ, here, cliReadLine_rest wide sized (visible k)]
      refine ⟨oneLine_afterLine fun ended => found ?_, rfl⟩
      rw [here, ended, cliReadLine_ended wide sized (by omega)]

/-- The lines of a stream without NUL bytes, in the buffer of `cli_run`. -/
theorem one_line_per_call_plain : ReadsLineByLine 512 (str "help\n\nexit") := by
  refine (one_line_per_call_iff 512 (str "help\n\nexit") (by decide)).mpr
    ⟨by decide, fun k hidden => ?_⟩
  obtain ⟨content, after, split, _, nul, _⟩ := hidden
  have among : 0 ∈ lineStart (str "help\n\nexit") k := by
    rw [split]
    exact List.mem_append_left _ nul
  exact absurd ((lineStart_suffix _ k).subset among) (by decide)

/-- A NUL byte makes the call discard the line behind its own. -/
theorem one_line_per_call_nul :
    ¬ ∀ (buflen : UInt64) (stream : Bytes), 2 ≤ buflen → ReadsLineByLine buflen stream := by
  intro claim
  have reads := claim 512 [97, 0, 10, 98, 10] (by decide) 0
  have start : callStart 512 [97, 0, 10, 98, 10] 0 = [97, 0, 10, 98, 10] := rfl
  have skipped : callStart 512 [97, 0, 10, 98, 10] 1 = [] := by decide
  rw [skipped, start] at reads
  rcases (reads (by decide)).1 with ⟨content, free, split⟩ | ⟨_, none, _⟩
  · have front : [97, 0, 10, 98] = content := by simpa using congrArg List.dropLast split
    exact free (front ▸ by decide)
  · exact none (by decide)

/-! ## The line limit -/

/-- What the successive calls of `cli_run` return, up to the first -1. -/
def cliReads : Nat → Bytes → List LineRead
  | 0, _ => []
  | passes + 1, stream =>
    match cliReadLine CLI_MAX_INPUT.toUInt64 stream with
    | (.eof, _) => []
    | (read, stream) => read :: cliReads passes stream

/-- What `cli_run` does with the lines it reads. -/
def serveLines : List LineRead → Prog LineOutcome
  | [] | .eof :: _ => return .leave
  | .tooLong :: reads => do
    Posix.print (str "Error: Input too long (maximum " ++ decimalNat (CLI_MAX_INPUT - 1) ++
      str " characters per line)." ++ newline)
    Posix.print prompt
    serveLines reads
  | .stored line :: reads => do
    match ← cliHandleLine (CString.ofArray line) with
    | .next =>
      Posix.print prompt
      serveLines reads
    | outcome => return outcome

/-- The session serves the lines that the successive calls return. -/
theorem cliLoop_serves (passes : Nat) (stream : Bytes) :
    cliLoop passes stream = serveLines (cliReads passes stream) := by
  induction passes generalizing stream with
  | zero => rfl
  | succ passes ih =>
    unfold cliLoop cliReads
    rcases cliReadLine CLI_MAX_INPUT.toUInt64 stream with ⟨line | _ | _, rest⟩
    · refine congrArg (cliHandleLine (CString.ofArray line) >>= ·) (funext fun outcome => ?_)
      cases outcome with
      | next => exact congrArg (fun served => Posix.print prompt >>= fun _ => served) (ih rest)
      | _ => rfl
    · rfl
    · simp only [serveLines, ih]

/-- The lines of a stream: terminated ones, and what is left behind the last newline. -/
structure Lines where
  terminated : List Bytes
  last : Bytes
  newlineFree : ∀ line ∈ last :: terminated, 10 ∉ line
  nulFree : ∀ line ∈ last :: terminated, 0 ∉ line

/-- The stream that consists of the lines. -/
def Lines.bytes (lines : Lines) : Bytes := lines.terminated.flatMap (· ++ [10]) ++ lines.last

/-- All lines, an unterminated last one among them. -/
def Lines.all (lines : Lines) : List Bytes :=
  lines.terminated ++ if lines.last = [] then [] else [lines.last]

/-- What the documentation promises for a line. -/
def documentedRead (line : Bytes) : LineRead :=
  if line.length ≤ CLI_MAX_INPUT - 1 then .stored line else .tooLong

/-- What a call returns for a terminated line: its newline has to fit too. -/
def terminatedRead (line : Bytes) : LineRead :=
  if line.length < CLI_MAX_INPUT - 1 then .stored line else .tooLong

private theorem maxInput_sized :
    intOfSize CLI_MAX_INPUT.toUInt64 = ((CLI_MAX_INPUT - 1 : Nat) : Int) + 1 := by
  decide

private theorem cliReadLine_clean (free : 10 ∉ line) (clean : 0 ∉ line) :
    cliReadLine CLI_MAX_INPUT.toUInt64 (line ++ 10 :: after) = (terminatedRead line, after) := by
  rw [cliReadLine_terminated (by decide) maxInput_sized free, if_neg clean, terminatedRead]
  split <;> rfl

private theorem cliReadLine_last (free : 10 ∉ line) (clean : 0 ∉ line) (something : line ≠ []) :
    cliReadLine CLI_MAX_INPUT.toUInt64 line = (documentedRead line, []) := by
  rw [cliReadLine_unterminated (by decide) maxInput_sized free something, cstr_eq_self clean,
    documentedRead]
  split <;> rfl

private theorem cliReads_step {read : LineRead}
    (called : cliReadLine CLI_MAX_INPUT.toUInt64 stream = (read, after)) (found : read ≠ .eof) :
    cliReads (passes + 1) stream = read :: cliReads passes after := by
  rw [cliReads, called]
  cases read with
  | stored line => rfl
  | eof => exact absurd rfl found
  | tooLong => rfl

private theorem documentedRead_found (line : Bytes) : documentedRead line ≠ .eof := by
  unfold documentedRead
  split <;> exact LineRead.noConfusion

private theorem terminatedRead_found (line : Bytes) : terminatedRead line ≠ .eof := by
  unfold terminatedRead
  split <;> exact LineRead.noConfusion

private theorem cliReads_ended (passes : Nat) : cliReads passes [] = [] := by
  cases passes with
  | zero => rfl
  | succ passes =>
    rw [cliReads, cliReadLine_ended (by decide) maxInput_sized (by decide)]

private theorem cliReads_last (free : 10 ∉ line) (clean : 0 ∉ line)
    (enough : line.length < passes) :
    cliReads passes line = if line = [] then [] else [documentedRead line] := by
  split
  · rename_i ended
    rw [ended, cliReads_ended]
  · rename_i something
    obtain ⟨passes, rfl⟩ := Nat.exists_eq_add_of_lt enough
    rw [cliReads_step (cliReadLine_last free clean something) (documentedRead_found line),
      cliReads_ended]

/-- The run lemma: what the calls return, line by line. -/
theorem cliReads_lines (lines : Lines) (passes : Nat) (enough : lines.bytes.length < passes) :
    cliReads passes lines.bytes = lines.terminated.map terminatedRead ++
      if lines.last = [] then [] else [documentedRead lines.last] := by
  obtain ⟨terminated, last, free, clean⟩ := lines
  dsimp only [Lines.bytes] at enough ⊢
  induction terminated generalizing passes with
  | nil => exact cliReads_last (free last (by simp)) (clean last (by simp)) enough
  | cons line terminated ih =>
    rw [List.flatMap_cons, List.append_assoc, List.append_assoc, List.singleton_append] at enough ⊢
    rw [List.length_append, List.length_cons] at enough
    cases passes with
    | zero => exact absurd enough (Nat.not_lt_zero _)
    | succ passes =>
      have among : ∀ other ∈ last :: terminated, other ∈ last :: line :: terminated := by
        intro other member
        exact (List.mem_cons.mp member).elim (fun same => same ▸ List.mem_cons_self ..)
          fun later => List.mem_cons_of_mem _ (List.mem_cons_of_mem _ later)
      have rest := ih passes (fun other member => free other (among other member))
        (fun other member => clean other (among other member)) (by omega)
      rw [cliReads_step (cliReadLine_clean (free line (by simp)) (clean line (by simp)))
        (terminatedRead_found line),
        rest, List.map_cons, List.cons_append]

private theorem terminatedRead_documented :
    terminatedRead line = documentedRead line ↔ line.length ≠ CLI_MAX_INPUT - 1 := by
  unfold terminatedRead documentedRead
  constructor
  · intro same exactly
    rw [if_neg (by omega), if_pos (by omega)] at same
    cases same
  · intro other
    by_cases short : line.length < CLI_MAX_INPUT - 1
    · rw [if_pos short, if_pos (by omega)]
    · rw [if_neg short, if_neg (by omega)]

/-- Every line up to the documented limit is delivered as it stands, and every longer one is
refused without harm to the next, if and only if no terminated line has exactly as many
characters as the limit. -/
theorem line_limit_iff (lines : Lines) :
    cliReads (lines.bytes.length + 1) lines.bytes = lines.all.map documentedRead ↔
      ∀ line ∈ lines.terminated, line.length ≠ CLI_MAX_INPUT - 1 := by
  have last : (if lines.last = [] then [] else [lines.last]).map documentedRead =
      if lines.last = [] then [] else [documentedRead lines.last] := by split <;> rfl
  rw [cliReads_lines lines _ (Nat.lt_succ_self _), Lines.all, List.map_append, last,
    List.append_left_inj,
    List.map_inj_left]
  exact forall₂_congr fun _ _ => terminatedRead_documented

/-- A terminated line of 511 characters is refused. -/
theorem line_limit_refused :
    ¬ ∀ lines : Lines, cliReads (lines.bytes.length + 1) lines.bytes =
      lines.all.map documentedRead := by
  intro claim
  have plain : ∀ c : UInt8, c ≠ 97 → ∀ line ∈ [[], List.replicate 511 97], c ∉ line := by
    intro c other line among member
    rcases List.mem_cons.mp among with rfl | among
    · cases member
    · rw [List.mem_singleton.mp among] at member
      exact other (List.eq_of_mem_replicate member)
  let full : Lines :=
    { terminated := [List.replicate 511 97]
      last := []
      newlineFree := plain 10 (by decide)
      nulFree := plain 0 (by decide) }
  have delivered := claim full
  rw [cliReads_lines full _ (Nat.lt_succ_self _)] at delivered
  have same : terminatedRead (List.replicate 511 97) = documentedRead (List.replicate 511 97) :=
    (List.cons.inj delivered).1
  exact terminatedRead_documented.mp same (List.length_replicate ..)

/-! ## What a call takes from the stream -/

private theorem takeLine_append (room : Nat) (stream : Bytes) :
    (takeLine room stream).1 ++ (takeLine room stream).2 = stream := by
  induction room generalizing stream with
  | zero => rfl
  | succ room ih =>
    cases stream with
    | nil => rfl
    | cons c stream =>
      unfold takeLine
      split
      · rfl
      · exact congrArg (c :: ·) (ih stream)

/-- What `fgets` stores stands at the front of the stream, and is something if there is room
for it. -/
theorem fgets_takes {size : Int} {stored rest : Bytes}
    (got : fgets size stream = some (stored, rest)) :
    stored ++ rest = stream ∧ (1 < size → stored ≠ []) := by
  unfold fgets at got
  split at got
  · cases got
  split at got
  · cases got
  rename_i positive some_left
  rw [Option.some.injEq, Prod.mk.injEq] at got
  obtain ⟨rfl, rfl⟩ := got
  refine ⟨takeLine_append _ _, fun more => ?_⟩
  obtain ⟨room, sized⟩ : ∃ room, size.toNat - 1 = room + 1 := ⟨size.toNat - 2, by omega⟩
  cases stream with
  | nil => exact absurd ⟨by omega, rfl⟩ some_left
  | cons c stream =>
    rw [sized]
    unfold takeLine
    split <;> exact List.cons_ne_nil _ _

private theorem discardLine_suffix (c : UInt8) (stream : Bytes) :
    discardLine c stream <:+ stream := by
  induction stream generalizing c with
  | nil =>
    unfold discardLine
    split <;> exact List.suffix_rfl
  | cons next rest ih =>
    unfold discardLine
    split
    · exact List.suffix_rfl
    · exact (ih next).trans (List.suffix_cons _ _)

/-- A line is read from the front of the stream, and what is left is the end of it. -/
theorem cliReadLine_takes (buflen : UInt64) (stream : Bytes) :
    (cliReadLine buflen stream).2 <:+ stream ∧
      ∀ line, (cliReadLine buflen stream).1 = .stored line → line <:+: stream := by
  unfold cliReadLine
  split
  · exact ⟨List.suffix_rfl, nofun⟩
  cases got : fgets (intOfSize buflen) stream with
  | none => exact ⟨List.suffix_rfl, nofun⟩
  | some read =>
    obtain ⟨stored, rest⟩ := read
    have split := (fgets_takes got).1
    have front : cstr stored <:+: stream :=
      (List.takeWhile_prefix _).isInfix.trans (split ▸ (List.prefix_append stored rest).isInfix)
    have behind : rest <:+ stream := split ▸ List.suffix_append stored rest
    dsimp only
    split
    · refine ⟨behind, ?_⟩
      rintro _ ⟨⟩
      exact (List.take_prefix _ _).isInfix.trans front
    · cases rest with
      | nil =>
        refine ⟨behind, ?_⟩
        rintro _ ⟨⟩
        exact front
      | cons character rest =>
        exact ⟨((discardLine_suffix character rest).trans (List.suffix_cons _ _)).trans behind,
          nofun⟩

/-- A call that finds a line takes something from the stream, if its buffer has room. -/
theorem cliReadLine_shorter {buflen : UInt64} (roomy : 1 < intOfSize buflen)
    (found : (cliReadLine buflen stream).1 ≠ .eof) :
    (cliReadLine buflen stream).2.length < stream.length := by
  unfold cliReadLine at found ⊢
  split at found
  · exact absurd rfl found
  rename_i wide
  rw [if_neg wide]
  cases got : fgets (intOfSize buflen) stream with
  | none =>
    rw [got] at found
    exact absurd rfl found
  | some read =>
    obtain ⟨stored, rest⟩ := read
    obtain ⟨split, something⟩ := fgets_takes got
    have shorter : rest.length < stream.length := by
      have positive := List.length_pos_iff.mpr (something roomy)
      rw [← split, List.length_append]
      omega
    dsimp only
    split
    · exact shorter
    · cases rest with
      | nil => exact shorter
      | cons character rest =>
        have kept := (discardLine_suffix character rest).length_le
        rw [List.length_cons] at shorter
        dsimp only
        omega

/-- There are no more lines than characters. -/
theorem cliReads_length (passes : Nat) (stream : Bytes) :
    (cliReads passes stream).length ≤ stream.length := by
  induction passes generalizing stream with
  | zero => exact Nat.zero_le _
  | succ passes ih =>
    have roomy : 1 < intOfSize CLI_MAX_INPUT.toUInt64 := by decide
    unfold cliReads
    cases read : cliReadLine CLI_MAX_INPUT.toUInt64 stream with
    | mk result rest =>
      have less := ih rest
      have shorter : (cliReadLine CLI_MAX_INPUT.toUInt64 stream).1 ≠ .eof → _ :=
        cliReadLine_shorter roomy
      rw [read] at shorter
      cases result with
      | eof => exact Nat.zero_le _
      | stored | tooLong =>
        have fewer : rest.length < stream.length := shorter LineRead.noConfusion
        rw [List.length_cons]
        omega

theorem cliReads_found (passes : Nat) (stream : Bytes) : .eof ∉ cliReads passes stream := by
  induction passes generalizing stream with
  | zero => exact List.not_mem_nil
  | succ passes ih =>
    unfold cliReads
    cases read : cliReadLine CLI_MAX_INPUT.toUInt64 stream with
    | mk result rest =>
      cases result with
      | eof => exact List.not_mem_nil
      | stored | tooLong => exact List.not_mem_cons_of_ne_of_not_mem LineRead.noConfusion (ih rest)

end SqlEngine
