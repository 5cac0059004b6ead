import SqlEngine.Lexical

/-! Why a text is not split into tokens: the first place where no token can be read, or
where none is wanted any more. The tokenizer reports exactly that. -/
namespace SqlEngine

/-- A character that is no white space and starts no token. -/
structure StartsNothing (c : UInt8) (rest : Bytes) : Prop where
  solid : isSpace c = false
  unpunctuated : ∀ type, (c, type) ∉ punctuationTable
  unquoted : c ≠ 34
  digit : isDigit c = false
  minus : ¬ (c = 45 ∧ isDigit (rest.headD 0) = true)
  initial : (isAlpha c || c == 95) = false

/-- A text that starts with no token, and why. -/
inductive Unscannable : Bytes → TokenizeStatus → Prop where
  | character (c : UInt8) (rest : Bytes) (nothing : StartsNothing c rest) :
      Unscannable (c :: rest) .invalidCharacter
  | unterminated (content : Bytes) (unquoted : 34 ∉ content) (fits : content.length ≤ 63) :
      Unscannable (34 :: content) .unterminatedString
  | string (content rest : Bytes) (unquoted : 34 ∉ content) (long : content.length = 64) :
      Unscannable (34 :: (content ++ rest)) .tokenTooLong
  | number (sign digits rest : Bytes) (signed : sign = [] ∨ sign = [45])
      (decimal : ∀ c ∈ digits, isDigit c = true)
      (long : (sign ++ digits).length = 64) : Unscannable (sign ++ (digits ++ rest)) .tokenTooLong
  | word (first : UInt8) (tail rest : Bytes) (initial : (isAlpha first || first == 95) = true)
      (following : ∀ c ∈ tail, isWordChar c = true) (long : (first :: tail).length = 64) :
      Unscannable (first :: (tail ++ rest)) .tokenTooLong

/-- A text that is not split into so many tokens, and why. -/
inductive LexFault : Nat → Bytes → TokenizeStatus → Prop where
  | full (blank : ∀ c ∈ gap, isSpace c = true) (solid : isSpace c = false) :
      LexFault 0 (gap ++ c :: rest) .tooManyTokens
  | unscannable (blank : ∀ c ∈ gap, isSpace c = true) (stuck : Unscannable text status) :
      LexFault (room + 1) (gap ++ text) status
  | behind {token : Token} (blank : ∀ c ∈ gap, isSpace c = true) (lexeme : Lexeme text token)
      (maximal : Maximal token.type rest) (fault : LexFault room rest status) :
      LexFault (room + 1) (gap ++ (text ++ rest)) status

variable {p text rest gap : Bytes} {c : UInt8} {status : TokenizeStatus} {room fuel : Nat}
    {storage : List Token}

/-! ## One token -/

private theorem long_front (accept : UInt8 → Bool) {n : Nat}
    (long : n ≤ (p.takeWhile accept).length) :
    ∃ front rest, p = front ++ rest ∧ front.length = n ∧ ∀ c ∈ front, accept c = true := by
  refine ⟨(p.takeWhile accept).take n, (p.takeWhile accept).drop n ++ p.dropWhile accept, ?_,
    List.length_take_of_le long,
    fun c among => List.mem_takeWhile_imp (List.mem_of_mem_take among)⟩
  rw [← List.append_assoc, List.take_append_drop, List.takeWhile_append_dropWhile]

private theorem length_front {accept : UInt8 → Bool} {front rest : Bytes}
    (accepted : ∀ c ∈ front, accept c = true) :
    front.length ≤ ((front ++ rest).takeWhile accept).length := by
  rw [List.takeWhile_append_of_pos accepted, List.length_append]
  exact Nat.le_add_right _ _

private theorem unquoted_iff {content : Bytes} :
    34 ∉ content ↔ ∀ c ∈ content, (c != 34) = true := by
  simp only [bne_iff_ne, ne_eq]
  exact ⟨fun absent c among same => absent (same ▸ among), fun distinct among =>
    distinct 34 among rfl⟩

private theorem scanString_stuck (nulFree : 0 ∉ p) (failed : scanString p = .fail status) :
    Unscannable (34 :: p) status := by
  rw [scanString_eq nulFree] at failed
  split at failed
  · rename_i fits
    split at failed
    · cases failed
    · rename_i unclosed
      cases failed
      have none : p.dropWhile (· != 34) = [] := by
        have stopped := List.head?_dropWhile_not (· != 34) p
        cases behind : p.dropWhile (· != 34) with
        | nil => rfl
        | cons c q =>
          rw [behind] at stopped unclosed
          exact absurd (by simpa using stopped) unclosed
      have accepted := List.dropWhile_eq_nil_iff.mp none
      rw [List.takeWhile_eq_self_iff.mpr accepted] at fits
      exact .unterminated p (unquoted_iff.mpr accepted) fits
  · rename_i long
    cases failed
    obtain ⟨front, rest, rfl, length, accepted⟩ := long_front (· != 34) (Nat.lt_of_not_le long)
    exact .string front rest (unquoted_iff.mpr accepted) length

private theorem scanNumber_stuck {sign : Bytes} (signed : sign = [] ∨ sign = [45])
    (digit : isDigit (p.headD 0) = true) (nulFree : 0 ∉ p)
    (failed : scanNumber (sign ++ p) = .fail status) :
    Unscannable (sign ++ p) status := by
  have unsigned : p.headD 0 ≠ 45 := by
    intro minus
    rw [minus] at digit
    exact absurd digit (by decide)
  rw [scanNumber_eq sign signed unsigned nulFree] at failed
  split at failed
  · cases failed
  · rename_i long
    cases failed
    rw [List.length_append] at long
    obtain ⟨digits, rest, rfl, length, accepted⟩ :=
      long_front (p := p) isDigit (show 64 - sign.length ≤ (p.takeWhile isDigit).length by omega)
    refine .number sign digits rest signed accepted ?_
    have short : sign.length ≤ 1 := by rcases signed with rfl | rfl <;> decide
    rw [List.length_append, length]
    omega

private theorem scanWord_stuck (initial : (isAlpha c || c == 95) = true) (nulFree : 0 ∉ c :: p)
    (failed : scanWord (c :: p) = .fail status) : Unscannable (c :: p) status := by
  rw [scanWord_eq nulFree] at failed
  split at failed
  · cases failed
  · rename_i long
    cases failed
    obtain ⟨word, rest, split, length, accepted⟩ := long_front isWordChar (Nat.lt_of_not_le long)
    cases word with
    | nil => cases length
    | cons first tail =>
      obtain ⟨rfl, rfl⟩ := List.cons.inj split
      exact .word c tail rest initial
        (fun d among => accepted d (List.mem_cons_of_mem _ among)) length

private theorem scanToken_character (nothing : StartsNothing c p) :
    scanToken (c :: p) = .fail .invalidCharacter := by
  rcases scanToken_cases c p with
      ⟨type, member, _⟩ | ⟨same, _⟩ | ⟨sign, q, split, signed, following, _⟩ | ⟨starts, _⟩ | read
  · exact absurd member (nothing.unpunctuated type)
  · exact absurd same nothing.unquoted
  · rcases signed with rfl | rfl
    · rw [← show c :: p = q from split] at following
      exact absurd following (by simp [nothing.digit])
    · obtain ⟨rfl, rfl⟩ := List.cons.inj split
      exact absurd ⟨rfl, following⟩ nothing.minus
  · exact absurd starts (by simp [nothing.initial])
  · exact read

/-- What the scanner refuses starts with no token. -/
theorem scanToken_stuck (nulFree : 0 ∉ c :: p) (solid : isSpace c = false)
    (failed : scanToken (c :: p) = .fail status) :
    Unscannable (c :: p) status := by
  have tailFree : 0 ∉ p := fun among => nulFree (List.mem_cons_of_mem _ among)
  by_cases punctuated : ∃ type, (c, type) ∈ punctuationTable
  · obtain ⟨type, member⟩ := punctuated
    rw [scanToken_punctuation member] at failed
    cases failed
  by_cases quote : c = 34
  · subst quote
    exact scanString_stuck tailFree failed
  by_cases digit : isDigit c = true
  · rw [scanToken_number (.inl digit)] at failed
    exact scanNumber_stuck (.inl rfl) (p := c :: p) digit nulFree failed
  by_cases minus : c = 45 ∧ isDigit (p.headD 0) = true
  · rw [scanToken_number (.inr minus)] at failed
    obtain ⟨rfl, following⟩ := minus
    exact scanNumber_stuck (.inr rfl) following tailFree failed
  by_cases initial : (isAlpha c || c == 95) = true
  · rw [scanToken_word initial] at failed
    exact scanWord_stuck initial nulFree failed
  · have nothing : StartsNothing c p :=
      ⟨solid, fun type member => punctuated ⟨type, member⟩, quote, eq_false_of_ne_true digit, minus,
        eq_false_of_ne_true initial⟩
    rw [scanToken_character nothing] at failed
    cases failed
    exact .character c p nothing

/-- The scanner refuses what starts with no token. -/
theorem scanToken_refuses (stuck : Unscannable text status) (nulFree : 0 ∉ text) :
    scanToken text = .fail status := by
  cases stuck with
  | character c rest nothing => exact scanToken_character nothing
  | unterminated content unquoted fits =>
    have accepted := unquoted_iff.mp unquoted
    have tailFree : 0 ∉ content := fun among => nulFree (List.mem_cons_of_mem _ among)
    change scanString content = _
    rw [scanString_eq tailFree, List.takeWhile_eq_self_iff.mpr accepted,
      List.dropWhile_eq_nil_iff.mpr accepted, if_pos fits]
    rfl
  | string content rest unquoted long =>
    have least := @length_front _ content rest (unquoted_iff.mp unquoted)
    have tailFree : 0 ∉ content ++ rest := fun among => nulFree (List.mem_cons_of_mem _ among)
    change scanString (content ++ rest) = _
    rw [scanString_eq tailFree, if_neg (by omega)]
  | number sign digits rest signed decimal long =>
    have least := @length_front _ digits rest decimal
    have tailFree : 0 ∉ digits ++ rest := fun among => nulFree (List.mem_append_right _ among)
    have short : sign.length ≤ 1 := by rcases signed with rfl | rfl <;> decide
    cases digits with
    | nil =>
      rw [List.append_nil] at long
      omega
    | cons d digits =>
      have digit : isDigit d = true := decimal d List.mem_cons_self
      have unsigned : (d :: digits ++ rest).headD 0 ≠ 45 := by
        rintro minus
        rw [List.cons_append, List.headD_cons] at minus
        subst minus
        exact absurd digit (by decide)
      have scanned : scanToken (sign ++ (d :: digits ++ rest)) =
          scanNumber (sign ++ (d :: digits ++ rest)) := by
        rcases signed with rfl | rfl
        · exact scanToken_number (.inl digit)
        · exact scanToken_number (.inr ⟨rfl, digit⟩)
      rw [List.length_append] at long
      rw [scanned, scanNumber_eq sign signed unsigned tailFree, if_neg]
      rw [List.length_append]
      omega
  | word first tail rest initial following long =>
    have accepted : ∀ c ∈ first :: tail, isWordChar c = true := by
      intro c among
      rcases List.mem_cons.mp among with rfl | among
      · exact forall_byte (P := fun d => (isAlpha d || d == 95) = true → isWordChar d = true)
          (by decide +kernel) c initial
      · exact following c among
    have least := @length_front _ (first :: tail) rest accepted
    rw [scanToken_word initial, scanWord_eq nulFree, if_neg]
    rw [List.cons_append] at least
    omega

/-! ## The whole text -/

private theorem unscannable_head (stuck : Unscannable text status) :
    ∃ c tail, text = c :: tail ∧ isSpace c = false := by
  cases stuck with
  | character c rest nothing => exact ⟨c, rest, rfl, nothing.solid⟩
  | unterminated content => exact ⟨34, content, rfl, rfl⟩
  | string content rest => exact ⟨34, content ++ rest, rfl, rfl⟩
  | number sign digits rest signed decimal long =>
    rcases signed with rfl | rfl
    · cases digits with
      | nil => cases long
      | cons d digits =>
        exact ⟨d, digits ++ rest, rfl,
          forall_byte (P := fun d => isDigit d = true → isSpace d = false) (by decide +kernel) d
          (decimal d List.mem_cons_self)⟩
    · exact ⟨45, digits ++ rest, rfl, rfl⟩
  | word first tail rest initial =>
    exact ⟨first, tail ++ rest, rfl,
      forall_byte (P := fun d => (isAlpha d || d == 95) = true → isSpace d = false)
        (by decide +kernel) first initial⟩

private theorem dropWhile_gap (blank : ∀ c ∈ gap, isSpace c = true) (solid : isSpace c = false) :
    (gap ++ c :: rest).dropWhile isSpace = c :: rest := by
  rw [List.dropWhile_append_of_pos blank, List.dropWhile_cons_of_neg (by simp [solid])]

private theorem tokenizeLoop_fails_iff {left : Nat} (enough : p.length < fuel) (nulFree : 0 ∉ p)
    (within : storage.length + left = room) :
    tokenizeLoop (room + 1) fuel p storage = .fail status ↔ LexFault left p status := by
  -- The loop fails with what is wrong with its text, of which so many tokens may still be
  -- read.
  induction fuel generalizing p storage left with
  | zero => omega
  | succ fuel ih =>
    obtain ⟨shorter, droppedFree⟩ := dropSpaces_behind nulFree
    rw [tokenizeLoop_step nulFree]
    constructor
    · intro failed
      have blank : ∀ c ∈ p.takeWhile isSpace, isSpace c = true :=
        fun c among => List.mem_takeWhile_imp among
      have parts : p.takeWhile isSpace ++ p.dropWhile isSpace = p := List.takeWhile_append_dropWhile
      cases dropped : p.dropWhile isSpace with
      | nil =>
        rw [dropped, if_pos rfl] at failed
        cases failed
      | cons c q =>
        have solid : isSpace c = false := by
          have stopped := List.head?_dropWhile_not isSpace p
          rw [dropped] at stopped
          simpa using stopped
        rw [dropped] at failed parts droppedFree shorter
        rw [if_neg (List.cons_ne_nil c q)] at failed
        rw [← parts]
        split at failed
        · rename_i full
          cases failed
          obtain rfl : left = 0 := by omega
          exact .full blank solid
        · rename_i notFull
          obtain ⟨left, rfl⟩ : ∃ l, left = l + 1 := ⟨left - 1, by omega⟩
          cases scanned : scanToken (c :: q) with
          | overrun =>
            rw [scanned] at failed
            cases failed
          | fail reported =>
            rw [scanned] at failed
            cases failed
            exact .unscannable blank (scanToken_stuck droppedFree solid scanned)
          | done read =>
            obtain ⟨token, rest⟩ := read
            rw [scanned, Scan.done_bind] at failed
            obtain ⟨less, restFree⟩ := scanToken_shorter droppedFree scanned
            obtain ⟨text, split, lexeme, maximal⟩ := scanToken_sound droppedFree scanned
            have count : (storage ++ [token]).length + left = room := by
              rw [List.length_append, List.length_singleton]
              omega
            rw [split]
            exact .behind blank lexeme maximal ((ih (by omega) restFree count).mp failed)
    · intro fault
      cases fault with
      | @full gap c rest blank solid =>
        rw [dropWhile_gap blank solid, if_neg (List.cons_ne_nil _ _), if_pos (by omega)]
      | @unscannable gap text status left blank stuck =>
        obtain ⟨c, tail, rfl, solid⟩ := unscannable_head stuck
        rw [dropWhile_gap blank solid] at droppedFree ⊢
        rw [if_neg (List.cons_ne_nil _ _), if_neg (by omega), scanToken_refuses stuck droppedFree,
          Scan.fail_bind]
      | @behind gap text rest left status token blank lexeme maximal fault =>
        obtain ⟨c, tail, rfl, solid, _⟩ := lexeme_head lexeme
        have gapless := lexeme_after_gap rest blank lexeme
        rw [gapless] at droppedFree shorter ⊢
        have scanned := scanToken_complete lexeme maximal droppedFree
        obtain ⟨less, restFree⟩ := scanToken_shorter droppedFree scanned
        have count : (storage ++ [token]).length + left = room := by
          rw [List.length_append, List.length_singleton]
          omega
        rw [if_neg (by simp), if_neg (by omega), scanned, Scan.done_bind]
        exact (ih (by omega) restFree count).mpr fault

/-- White space in front of a text changes nothing. -/
theorem LexFault.of_dropped (fault : LexFault room (p.dropWhile isSpace) status) :
    LexFault room p status := by
  have front : ∀ c ∈ p.takeWhile isSpace, isSpace c = true :=
    fun c among => List.mem_takeWhile_imp among
  have parts : p.takeWhile isSpace ++ p.dropWhile isSpace = p := List.takeWhile_append_dropWhile
  generalize p.takeWhile isSpace = spaces at front parts
  generalize p.dropWhile isSpace = behind at fault parts
  have joined : ∀ {gap : Bytes}, (∀ c ∈ gap, isSpace c = true) →
      ∀ c ∈ spaces ++ gap, isSpace c = true :=
    fun blank c among => (List.mem_append.mp among).elim (front c) (blank c)
  rw [← parts]
  cases fault with
  | full blank solid =>
    rw [← List.append_assoc]
    exact .full (joined blank) solid
  | unscannable blank stuck =>
    rw [← List.append_assoc]
    exact .unscannable (joined blank) stuck
  | behind blank lexeme maximal fault =>
    rw [← List.append_assoc]
    exact .behind (joined blank) lexeme maximal fault

private theorem tokenize_fails_loop (input : CString) (room : Nat) (status : TokenizeStatus) :
    tokenize input (room + 1) = some (status, .null) ↔
      tokenizeLoop (room + 1) (input.bytes.length + 1) input.bytes [] = .fail status := by
  unfold tokenize tokenizeInto
  rw [if_neg (by omega)]
  cases looped : tokenizeLoop (room + 1) (input.bytes.length + 1) input.bytes [] with
  | fail reported => simp
  | overrun => simp
  | done storage =>
    obtain ⟨_, _, _, fits⟩ :=
      (tokenizeLoop_iff room _ [] storage (Nat.lt_succ_self _) input.nulFree
        (Nat.zero_le _)).mp looped
    have roomy : ¬ storage.length ≥ room + 1 := Nat.not_le.mpr (Nat.lt_succ_of_le fits)
    rw [Scan.done_bind, if_neg roomy]
    simp [TokenBuffer.null]

/-- What the tokenizer reports is wrong with its text. -/
theorem lexFault_of_tokenize {input : CString}
    (failed : tokenize input (room + 1) = some (status, .null)) :
    LexFault room input.bytes status :=
  (tokenizeLoop_fails_iff (Nat.lt_succ_self _) input.nulFree (Nat.zero_add _)).mp
    ((tokenize_fails_loop input room status).mp failed)

/-- The tokenizer fails exactly if its text is not split into so many tokens as there is
room for, and reports what is wrong at the first place where it goes on with none. -/
theorem tokenize_fails_iff (input : CString) (room : Nat) (status : TokenizeStatus) :
    tokenize input (room + 1) = some (status, .null) ↔ LexFault room input.bytes status :=
  ⟨lexFault_of_tokenize, fun fault => (tokenize_fails_loop input room status).mpr
    ((tokenizeLoop_fails_iff (Nat.lt_succ_self _) input.nulFree (Nat.zero_add _)).mpr fault)⟩

example : tokenize ⟨str "SELECT \"a", by decide⟩ 64 = some (.unterminatedString, .null) :=
  by decide +kernel

end SqlEngine
