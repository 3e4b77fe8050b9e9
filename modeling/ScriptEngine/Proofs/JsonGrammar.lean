import ScriptEngine.Proofs.LaterMemory
import ScriptEngine.Proofs.LexemeScan
/-!
# The grammar of json

The texts that are json values, each with the tree that it stands for, told without a word on how they are read: every
relation is between a text, what is spelled at its front, and the text behind that. Strings, numbers and words are read
as the grammar has them.
-/

namespace ScriptEngine.Json

/-! ## The grammar -/

/-- White space, and the text behind it. -/
def Blanks (bs rest : List UInt8) : Prop := ∃ ws, bs = ws ++ rest ∧ ws.all isBlank = true

/-- One digit or more. -/
def IsDigits (ds : List UInt8) : Prop := ds ≠ [] ∧ ds.all Text.isDigitByte = true

/-- A whole number: no zero comes before another digit. -/
def IsWhole (ds : List UInt8) : Prop := ds = [0x30] ∨ IsDigits ds ∧ ds.head? ≠ some 0x30

/-- A fraction, or nothing. -/
def IsFraction (bs : List UInt8) : Prop := bs = [] ∨ ∃ ds, bs = 0x2E :: ds ∧ IsDigits ds

/-- One of some signs, or nothing. -/
def IsSign (signs bs : List UInt8) : Prop := bs = [] ∨ ∃ b ∈ signs, bs = [b]

/-- An exponent, or nothing. -/
def IsExponent (bs : List UInt8) : Prop :=
  bs = [] ∨ ∃ e sign ds, bs = e :: (sign ++ ds) ∧ (e = 0x65 ∨ e = 0x45) ∧ IsSign [0x2B, 0x2D] sign ∧ IsDigits ds

/-- A number. -/
def IsNumber (bs : List UInt8) : Prop :=
  ∃ sign whole fraction exponent, bs = sign ++ (whole ++ (fraction ++ exponent)) ∧ IsSign [0x2D] sign ∧ IsWhole whole ∧
    IsFraction fraction ∧ IsExponent exponent

/-- A code point that is the first half of a pair. -/
def IsHigh (n : Nat) : Prop := 0xD800 ≤ n ∧ n < 0xDC00

/-- A code point that is the second half of a pair. -/
def IsLow (n : Nat) : Prop := 0xDC00 ≤ n ∧ n < 0xE000

/-- A text that goes on with an escape for the second half of a pair. -/
def BeginsLow (bs : List UInt8) : Prop :=
  ∃ a b c d more low, bs = 0x5C :: 0x75 :: a :: b :: c :: d :: more ∧ hex4? [a, b, c, d] = some low ∧ IsLow low

/-- A string behind its opening quote, the bytes that it stands for, and the text behind its closing quote. The halves of a
character are taken together, and a half by itself stands for U+FFFD. -/
inductive Quoted : List UInt8 → List UInt8 → List UInt8 → Prop
  | close {rest : List UInt8} : Quoted (0x22 :: rest) [] rest
  | byte {b : UInt8} {bs out rest : List UInt8} (quote : b ≠ 0x22) (slash : b ≠ 0x5C) (control : ¬b < 0x20)
    (more : Quoted bs out rest) : Quoted (b :: bs) (b :: out) rest
  | letter {e x : UInt8} {bs out rest : List UInt8} (escape : escapedByte? e = some x) (more : Quoted bs out rest) :
    Quoted (0x5C :: e :: bs) (x :: out) rest
  | code {a b c d : UInt8} {n : Nat} {bs out rest : List UInt8} (digits : hex4? [a, b, c, d] = some n) (whole : ¬IsHigh n ∧ ¬IsLow n)
    (more : Quoted bs out rest) : Quoted (0x5C :: 0x75 :: a :: b :: c :: d :: bs) (Text.encodeChar (Char.ofNat n) ++ out) rest
  | pair {a b c d a' b' c' d' : UInt8} {n m : Nat} {bs out rest : List UInt8} (digits : hex4? [a, b, c, d] = some n) (high : IsHigh n)
    (digits' : hex4? [a', b', c', d'] = some m) (low : IsLow m) (more : Quoted bs out rest) :
    Quoted (0x5C :: 0x75 :: a :: b :: c :: d :: 0x5C :: 0x75 :: a' :: b' :: c' :: d' :: bs)
      (Text.encodeChar (Char.ofNat ((n - 0xD800) * 0x400 + (m - 0xDC00) + 0x10000)) ++ out) rest
  | half {a b c d : UInt8} {n : Nat} {bs out rest : List UInt8} (digits : hex4? [a, b, c, d] = some n)
    (single : IsLow n ∨ IsHigh n ∧ ¬BeginsLow bs) (more : Quoted bs out rest) :
    Quoted (0x5C :: 0x75 :: a :: b :: c :: d :: bs) (Text.encodeChar '\ufffd' ++ out) rest

/-- A value without parts, and the text behind it. -/
inductive Scalar (number : List UInt8 → Json) : List UInt8 → Json → List UInt8 → Prop
  | null {rest : List UInt8} : Scalar number ((Text.ofString "null").bytes ++ rest) .null rest
  | true {rest : List UInt8} : Scalar number ((Text.ofString "true").bytes ++ rest) (.bool true) rest
  | false {rest : List UInt8} : Scalar number ((Text.ofString "false").bytes ++ rest) (.bool false) rest
  | text {bs content rest : List UInt8} (quoted : Quoted bs content rest) :
    Scalar number (0x22 :: bs) (.text (repaired content)) rest
  | number {literal rest : List UInt8} (formed : IsNumber literal) : Scalar number (literal ++ rest) (number literal) rest

/-- Parts with commas between them, the end of their container, and the text behind it. -/
inductive Separated {α : Type} (part : List UInt8 → α → List UInt8 → Prop) (close : UInt8) :
    List UInt8 → List α → List UInt8 → Prop
  | last {bs more rest : List UInt8} {x : α} (first : part bs x more) (ends : Blanks more (close :: rest)) :
    Separated part close bs [x] rest
  | next {bs more rest' rest : List UInt8} {x : α} {xs : List α} (first : part bs x more) (goes_on : Blanks more (0x2C :: rest'))
    (others : Separated part close rest' xs rest) : Separated part close bs (x :: xs) rest

/-- A value with white space before it. -/
def Item (value : List UInt8 → Json → List UInt8 → Prop) (bs : List UInt8) (j : Json) (rest : List UInt8) : Prop :=
  ∃ more, Blanks bs more ∧ value more j rest

/-- A key, a colon and a value, with white space before each. -/
def Member (value : List UInt8 → Json → List UInt8 → Prop) (bs : List UInt8) (e : Text × Json) (rest : List UInt8) : Prop :=
  ∃ key content more colon, Blanks bs (0x22 :: key) ∧ Quoted key content more ∧ e.1 = repaired content ∧
    Blanks more (0x3A :: colon) ∧ Item value colon e.2 rest

/-- A list or an object of values, and the text behind it. An object keeps the last value of a key. -/
inductive Container (value : List UInt8 → Json → List UInt8 → Prop) : List UInt8 → Json → List UInt8 → Prop
  | emptyList {bs rest : List UInt8} (ends : Blanks bs (0x5D :: rest)) : Container value (0x5B :: bs) (.list []) rest
  | list {bs rest : List UInt8} {js : List Json} (items : Separated (Item value) 0x5D bs js rest) :
    Container value (0x5B :: bs) (.list js) rest
  | emptyObject {bs rest : List UInt8} (ends : Blanks bs (0x7D :: rest)) : Container value (0x7B :: bs) (.object []) rest
  | object {bs rest : List UInt8} {es : List (Text × Json)} (members : Separated (Member value) 0x7D bs es rest) :
    Container value (0x7B :: bs) (.object (es.foldl (fun done e => insert e.1 e.2 done) [])) rest

/-- A value with at most so many containers in each other, and the text behind it. -/
def Spells (number : List UInt8 → Json) : Nat → List UInt8 → Json → List UInt8 → Prop
  | 0, bs, j, rest => Scalar number bs j rest
  | depth + 1, bs, j, rest => Scalar number bs j rest ∨ Container (Spells number depth) bs j rest

theorem Scalar.spells {number : List UInt8 → Json} {bs rest : List UInt8} {j : Json} (h : Scalar number bs j rest) (depth : Nat) :
    Spells number depth bs j rest := by
  cases depth with
  | zero => exact h
  | succ depth => exact .inl h

/-- A text that is one value with nothing but white space around it. -/
def Document (t : Text) (j : Json) : Prop :=
  ∃ bs rest, Blanks t.bytes bs ∧ Spells exactNumber maxDepth bs j rest ∧ Blanks rest []

/-- A text that is one value and, behind white space, the end of a container and whatever follows that. -/
def Closed (t : Text) (j : Json) : Prop :=
  ∃ bs rest b more, Blanks t.bytes bs ∧ Spells exactNumber maxDepth bs j rest ∧ Blanks rest (b :: more) ∧ (b = 0x5D ∨ b = 0x7D)

/-! ## White space -/

section Blanks

variable {bs rest more : List UInt8} {b : UInt8}

theorem Blanks.refl (bs : List UInt8) : Blanks bs bs := ⟨[], rfl, rfl⟩

theorem blanks_skip (bs : List UInt8) : Blanks bs (skipBlanks bs) :=
  ⟨bs.takeWhile isBlank, (List.takeWhile_append_dropWhile ..).symm, List.all_takeWhile⟩

theorem Blanks.skip_nil (h : Blanks bs []) : skipBlanks bs = [] := by
  obtain ⟨ws, rfl, blank⟩ := h
  exact (Cursor.takeWhile_run blank (by rintro _ ⟨⟩)).2

theorem Blanks.skip_cons (h : Blanks bs (b :: rest)) (solid : isBlank b = false) : skipBlanks bs = b :: rest := by
  obtain ⟨ws, rfl, blank⟩ := h
  refine (Cursor.takeWhile_run blank fun c first => ?_).2
  cases first
  exact solid

theorem Blanks.length_le (h : Blanks bs rest) : rest.length ≤ bs.length := by
  obtain ⟨ws, rfl, -⟩ := h
  rw [List.length_append]
  omega

end Blanks

/-! ## Strings -/

section Strings

variable {bs rest content : List UInt8} {a b c d : UInt8} {n m : Nat}

theorem readString_skip (bs : List UInt8) (k : Nat) (acc : List UInt8) : readString bs k acc = readString (bs.drop k) 0 acc := by
  induction bs generalizing k with
  | nil => rw [List.drop_nil, readString, readString]
  | cons b bs ih =>
    cases k with
    | zero => rfl
    | succ k =>
      rw [readString, List.drop_succ_cons]
      exact ih k

theorem hexValue_lt {b : UInt8} (h : Text.hexValue? b = some n) : n < 16 := by
  unfold Text.hexValue? at h
  split at h
  · rename_i digit
    simp only [Bool.and_eq_true, decide_eq_true_eq, UInt8.le_iff_toNat_le] at digit
    cases h
    have : (0x39 : UInt8).toNat = 0x39 := rfl
    omega
  split at h
  · rename_i digit
    simp only [Bool.and_eq_true, decide_eq_true_eq, UInt8.le_iff_toNat_le] at digit
    cases h
    have : (0x66 : UInt8).toNat = 0x66 := rfl
    omega
  split at h
  · rename_i digit
    simp only [Bool.and_eq_true, decide_eq_true_eq, UInt8.le_iff_toNat_le] at digit
    cases h
    have : (0x46 : UInt8).toNat = 0x46 := rfl
    omega
  · cases h

theorem hex4_lt (h : hex4? [a, b, c, d] = some n) : n < 65536 := by
  simp only [hex4?, Option.bind_eq_bind, Option.bind_eq_some_iff, Option.some.injEq] at h
  obtain ⟨a', ha, b', hb, c', hc, d', hd, rfl⟩ := h
  have := hexValue_lt ha
  have := hexValue_lt hb
  have := hexValue_lt hc
  have := hexValue_lt hd
  omega

theorem hex4_some (h : hex4? bs = some n) : ∃ a b c d more, bs = a :: b :: c :: d :: more ∧ hex4? [a, b, c, d] = some n := by
  unfold hex4? at h
  split at h
  · exact ⟨_, _, _, _, _, rfl, h⟩
  · cases h

theorem escapedChar_whole (small : n < 65536) (whole : ¬IsHigh n ∧ ¬IsLow n) (rest : List UInt8) :
    escapedChar n rest = (Char.ofNat n, 0) := by
  unfold IsHigh IsLow at whole
  have valid : n.isValidChar := by
    unfold Nat.isValidChar
    omega
  unfold escapedChar
  rw [if_neg (by simp only [Bool.and_eq_true, decide_eq_true_eq]; omega), if_pos valid]

theorem escapedChar_pair (high : IsHigh n) (digits : hex4? [a, b, c, d] = some m) (low : IsLow m) (rest : List UInt8) :
    escapedChar n (0x5C :: 0x75 :: a :: b :: c :: d :: rest) =
      (Char.ofNat ((n - 0xD800) * 0x400 + (m - 0xDC00) + 0x10000), 6) := by
  unfold IsHigh at high
  unfold IsLow at low
  have digits' : hex4? (a :: b :: c :: d :: rest) = some m := digits
  unfold escapedChar
  rw [if_pos (by simp only [Bool.and_eq_true, decide_eq_true_eq]; omega)]
  split
  · rename_i more same
    obtain rfl := (List.cons.inj (List.cons.inj same).2).2
    rw [digits']
    dsimp only
    rw [if_pos (by simp only [Bool.and_eq_true, decide_eq_true_eq]; omega)]
  · rename_i other
    exact absurd rfl (other _)

theorem escapedChar_half (single : IsLow n ∨ IsHigh n ∧ ¬BeginsLow rest) : escapedChar n rest = ('\ufffd', 0) := by
  unfold escapedChar
  split
  · rename_i high
    simp only [Bool.and_eq_true, decide_eq_true_eq] at high
    obtain low | ⟨-, alone⟩ := single
    · unfold IsLow at low
      omega
    split
    · split
      · rename_i more low digits
        split
        · rename_i isLow
          simp only [Bool.and_eq_true, decide_eq_true_eq] at isLow
          obtain ⟨a, b, c, d, more, rfl, digits⟩ := hex4_some digits
          exact absurd ⟨a, b, c, d, more, low, rfl, digits, isLow⟩ alone
        · rfl
      · rfl
    · rfl
  · rename_i other
    simp only [Bool.and_eq_true, decide_eq_true_eq] at other
    have half : ¬n.isValidChar := by
      unfold Nat.isValidChar
      unfold IsLow IsHigh at single
      omega
    rw [if_neg half]

theorem readString_code (digits : hex4? [a, b, c, d] = some n) (bs acc : List UInt8) :
    readString (0x5C :: 0x75 :: a :: b :: c :: d :: bs) 0 acc =
      readString (bs.drop (escapedChar n bs).2) 0 ((Text.encodeChar (escapedChar n bs).1).reverse ++ acc) := by
  have digits' : hex4? (a :: b :: c :: d :: bs) = some n := digits
  rw [readString, if_neg (by decide), if_pos rfl]
  dsimp only
  rw [if_pos rfl, digits']
  dsimp only
  rw [readString_skip, Nat.add_comm 5]
  rfl

/-- Every string of the grammar is read as what it stands for. -/
theorem readString_of_quoted (h : Quoted bs content rest) (acc : List UInt8) :
    readString bs 0 acc = .ok (content.reverse ++ acc, rest) := by
  induction h generalizing acc with
  | close => rfl
  | byte quote slash control _ ih =>
    rw [readString.eq_def]
    dsimp only
    rw [if_neg quote, if_neg slash, if_neg control, ih, List.reverse_cons, List.append_assoc]
    rfl
  | @letter e x bs out rest escape _ ih =>
    have other : e ≠ 0x75 := by
      rintro rfl
      cases escape
    rw [readString, if_neg (by decide), if_pos rfl]
    dsimp only
    rw [if_neg other, escape]
    dsimp only
    rw [readString_skip, List.drop_succ_cons, List.drop_zero, ih, List.reverse_cons, List.append_assoc]
    rfl
  | code digits whole _ ih =>
    rw [readString_code digits, escapedChar_whole (hex4_lt digits) whole, List.drop_zero, ih, List.reverse_append, List.append_assoc]
  | pair digits high digits' low _ ih =>
    rw [readString_code digits, escapedChar_pair high digits' low, List.reverse_append, List.append_assoc]
    simp only [List.drop_succ_cons, List.drop_zero]
    rw [ih]
  | half digits single _ ih =>
    rw [readString_code digits, escapedChar_half single, List.drop_zero, ih, List.reverse_append, List.append_assoc]

/-- What is read as a string is one of the grammar. -/
theorem quoted_of_readString {acc out : List UInt8} (h : readString bs 0 acc = .ok (out, rest)) :
    ∃ content, out = content.reverse ++ acc ∧ Quoted bs content rest := by
  induction size : bs.length using Nat.strongRecOn generalizing bs acc with
  | _ size ih =>
    subst size
    -- what one step adds to the text that is read, and to the bytes that it stands for
    have step {more acc' : List UInt8} (added : List UInt8) (run : readString more 0 acc' = .ok (out, rest)) (shorter : more.length < bs.length)
        (adds : acc' = added.reverse ++ acc) (quoted : ∀ content, Quoted more content rest → Quoted bs (added ++ content) rest) :
        ∃ content, out = content.reverse ++ acc ∧ Quoted bs content rest := by
      obtain ⟨content, rfl, inner⟩ := ih _ shorter run rfl
      exact ⟨added ++ content, by rw [adds, List.reverse_append, List.append_assoc], quoted content inner⟩
    cases bs with
    | nil => cases h
    | cons b bs =>
      by_cases close : b = 0x22
      · subst close
        cases h
        exact ⟨[], rfl, .close⟩
      by_cases slash : b = 0x5C
      · subst slash
        cases bs with
        | nil => cases h
        | cons e bs =>
          by_cases code : e = 0x75
          · subst code
            cases digits : hex4? bs with
            | none =>
              rw [readString, if_neg (by decide), if_pos rfl] at h
              dsimp only at h
              rw [if_pos rfl, digits] at h
              cases h
            | some n =>
              obtain ⟨a, b, c, d, more, rfl, digits⟩ := hex4_some digits
              rw [readString_code digits] at h
              by_cases whole : ¬IsHigh n ∧ ¬IsLow n
              · rw [escapedChar_whole (hex4_lt digits) whole, List.drop_zero] at h
                exact step _ h (by simp only [List.length_cons]; omega) rfl fun _ => .code digits whole
              by_cases paired : IsHigh n ∧ BeginsLow more
              · obtain ⟨high, a', b', c', d', more, m, rfl, digits', low⟩ := paired
                rw [escapedChar_pair high digits' low] at h
                simp only [List.drop_succ_cons, List.drop_zero] at h
                exact step _ h (by simp only [List.length_cons]; omega) rfl fun _ => .pair digits high digits' low
              · have single : IsLow n ∨ IsHigh n ∧ ¬BeginsLow more := by tauto
                rw [escapedChar_half single, List.drop_zero] at h
                exact step _ h (by simp only [List.length_cons]; omega) rfl fun _ => .half digits single
          · rw [readString, if_neg (by decide), if_pos rfl] at h
            dsimp only at h
            rw [if_neg code] at h
            split at h
            · rename_i x escape
              rw [readString_skip, List.drop_succ_cons, List.drop_zero] at h
              exact step [x] h (by simp only [List.length_cons]; omega) rfl fun _ => .letter escape
            · cases h
      · rw [readString.eq_def] at h
        dsimp only at h
        rw [if_neg close, if_neg slash] at h
        split at h
        · cases h
        · rename_i control
          exact step [b] h (by simp only [List.length_cons]; omega) rfl fun _ => .byte close slash control

end Strings

/-! ## Numbers and words -/

section Numbers

variable {bs rest ds whole fraction exponent : List UInt8} {n : Nat}

/-- A text that does not go on a number. -/
def EndsNumber (rest : List UInt8) : Prop :=
  ∀ b, rest.head? = some b → Text.isDigitByte b = false ∧ b ≠ 0x2E ∧ b ≠ 0x65 ∧ b ≠ 0x45

/-- Digits are cut off where no digit follows. -/
theorem takeWhile_digits (digits : IsDigits ds) (ends : ∀ b, rest.head? = some b → Text.isDigitByte b = false) :
    (ds ++ rest).takeWhile Text.isDigitByte = ds ∧ ¬ds.isEmpty = true :=
  ⟨(Cursor.takeWhile_run digits.2 ends).1, fun none => digits.1 (List.isEmpty_iff.mp none)⟩

/-- Digits that are cut off are digits, when there are some. -/
theorem take_takeWhile (bs : List UInt8) :
    bs.take (bs.takeWhile Text.isDigitByte).length = bs.takeWhile Text.isDigitByte :=
  (List.prefix_iff_eq_take.mp (List.takeWhile_prefix _)).symm

theorem isDigits_takeWhile (some : ¬(bs.takeWhile Text.isDigitByte).isEmpty = true) : IsDigits (bs.takeWhile Text.isDigitByte) :=
  ⟨fun none => some (by rw [none]; rfl), List.all_takeWhile⟩

theorem signLength_of_isSign {signs sign : List UInt8} (isSign : IsSign signs sign) (ends : ∀ b, rest.head? = some b → b ∉ signs) :
    signLength signs (sign ++ rest) = sign.length := by
  obtain rfl | ⟨b, mem, rfl⟩ := isSign
  · cases rest with
    | nil => rfl
    | cons b rest => exact if_neg (by simpa using ends b rfl)
  · exact if_pos (by simpa using mem)

theorem isSign_of_signLength (signs bs : List UInt8) : IsSign signs (bs.take (signLength signs bs)) := by
  cases bs with
  | nil => exact .inl rfl
  | cons b bs =>
    rw [signLength]
    split
    · rename_i mem
      exact .inr ⟨b, by simpa using mem, rfl⟩
    · exact .inl rfl

/-- What begins with a digit begins with no sign. -/
theorem IsDigits.head_eq (digits : IsDigits ds) : ∃ b more, ds = b :: more ∧ Text.isDigitByte b = true := by
  cases ds with
  | nil => exact absurd rfl digits.1
  | cons b more => exact ⟨b, more, rfl, List.all_eq_true.mp digits.2 b (List.mem_cons_self ..)⟩

theorem wholeLength_of_isWhole (isWhole : IsWhole whole) (ends : ∀ b, rest.head? = some b → Text.isDigitByte b = false) :
    wholeLength (whole ++ rest) = .ok whole.length := by
  obtain rfl | ⟨digits, first⟩ := isWhole
  · rfl
  · obtain ⟨taken, present⟩ := takeWhile_digits digits ends
    unfold wholeLength
    split
    · rename_i zero
      cases whole with
      | nil => exact absurd rfl digits.1
      | cons b ds =>
        obtain ⟨rfl, -⟩ := List.cons.inj zero
        exact absurd rfl first
    · dsimp only
      rw [taken, if_neg present]

theorem isWhole_of_wholeLength (h : wholeLength bs = .ok n) : IsWhole (bs.take n) := by
  unfold wholeLength at h
  split at h
  · cases h
    exact .inl rfl
  · rename_i other
    dsimp only at h
    split at h
    · cases h
    · rename_i present
      cases h
      rw [take_takeWhile]
      refine .inr ⟨isDigits_takeWhile present, fun zero => ?_⟩
      obtain ⟨b, more, first, -⟩ := (isDigits_takeWhile present).head_eq
      obtain ⟨behind, whole⟩ := List.takeWhile_prefix (p := Text.isDigitByte) (l := bs)
      rw [first] at zero whole
      cases zero
      exact other _ whole.symm

theorem fractionLength_of_isFraction (isFraction : IsFraction fraction)
    (ends : ∀ b, rest.head? = some b → Text.isDigitByte b = false ∧ b ≠ 0x2E) :
    fractionLength (fraction ++ rest) = .ok fraction.length := by
  obtain rfl | ⟨ds, rfl, digits⟩ := isFraction
  · unfold fractionLength
    split
    · rename_i same
      exact absurd rfl (ends 0x2E (by rw [List.nil_append] at same; rw [same]; rfl)).2
    · rfl
  · obtain ⟨taken, present⟩ := takeWhile_digits digits fun b first => (ends b first).1
    rw [List.cons_append, fractionLength, taken, if_neg present]
    rfl

theorem isFraction_of_fractionLength (h : fractionLength bs = .ok n) : IsFraction (bs.take n) := by
  unfold fractionLength at h
  split at h
  · rename_i more
    dsimp only at h
    split at h
    · cases h
    · rename_i present
      cases h
      rw [List.take_succ_cons, take_takeWhile]
      exact .inr ⟨_, rfl, isDigits_takeWhile present⟩
  · cases h
    exact .inl rfl

theorem exponentLength_of_isExponent (isExponent : IsExponent exponent) (ends : EndsNumber rest) :
    exponentLength (exponent ++ rest) = .ok exponent.length := by
  obtain rfl | ⟨e, sign, ds, rfl, isE, isSign, digits⟩ := isExponent
  · cases rest with
    | nil => rfl
    | cons b rest =>
      obtain ⟨-, -, small, capital⟩ := ends b rfl
      rw [List.nil_append, exponentLength, if_neg (by simp [small, capital])]
      rfl
  · obtain ⟨taken, present⟩ := takeWhile_digits digits fun b first => (ends b first).1
    rw [List.cons_append, exponentLength, if_pos (by simpa using isE)]
    dsimp only
    have noSign : ∀ b, (ds ++ rest).head? = some b → b ∉ [0x2B, 0x2D] := by
      obtain ⟨d, more, rfl, digit⟩ := digits.head_eq
      rintro b ⟨⟩ sign
      obtain rfl | rfl : d = 0x2B ∨ d = 0x2D := by simpa using sign
      all_goals cases digit
    rw [List.append_assoc, signLength_of_isSign isSign noSign, List.drop_left, taken, if_neg present, List.length_cons,
      List.length_append, Nat.add_comm 1, Nat.add_right_comm]

theorem isExponent_of_exponentLength (h : exponentLength bs = .ok n) : IsExponent (bs.take n) := by
  unfold exponentLength at h
  split at h
  · rename_i e more
    split at h
    · rename_i isE
      dsimp only at h
      split at h
      · cases h
      · rename_i present
        cases h
        refine .inr ⟨e, _, _, ?_, by simpa using isE, isSign_of_signLength _ more, isDigits_takeWhile present⟩
        rw [Nat.add_assoc, Nat.add_comm 1, List.take_succ_cons, List.take_add, take_takeWhile]
    · cases h
      exact .inl rfl
  · cases h
    exact .inl rfl

/-- Every number of the grammar is read to its end. -/
theorem numberLength_of_isNumber {literal : List UInt8} (isNumber : IsNumber literal) (ends : EndsNumber rest) :
    numberLength (literal ++ rest) = .ok literal.length := by
  obtain ⟨sign, whole, fraction, exponent, rfl, isSign, isWhole, isFraction, isExponent⟩ := isNumber
  have exponentEnds : ∀ b, (exponent ++ rest).head? = some b → Text.isDigitByte b = false ∧ b ≠ 0x2E := by
    intro b first
    obtain rfl | ⟨e, sign, ds, rfl, isE, -⟩ := isExponent
    · exact ⟨(ends b first).1, (ends b first).2.1⟩
    · cases first
      obtain rfl | rfl := isE <;> decide
  have fractionEnds : ∀ b, (fraction ++ (exponent ++ rest)).head? = some b → Text.isDigitByte b = false := by
    intro b first
    obtain rfl | ⟨ds, rfl, -⟩ := isFraction
    · exact (exponentEnds b first).1
    · cases first
      rfl
  have noSign : ∀ b, (whole ++ (fraction ++ (exponent ++ rest))).head? = some b → b ∉ [0x2D] := by
    rintro b first sign
    obtain rfl : b = 0x2D := by simpa using sign
    obtain rfl | ⟨digits, -⟩ := isWhole
    · cases first
    · obtain ⟨d, more, rfl, digit⟩ := digits.head_eq
      cases first
      cases digit
  simp only [List.append_assoc]
  rw [numberLength, signLength_of_isSign isSign noSign, List.drop_left, wholeLength_of_isWhole isWhole fractionEnds]
  dsimp only [bind, Except.bind]
  rw [← List.drop_drop, List.drop_left, List.drop_left, numberTail, fractionLength_of_isFraction isFraction exponentEnds]
  dsimp only [bind, Except.bind]
  rw [List.drop_left, exponentLength_of_isExponent isExponent ends]
  simp only [List.length_append, pure, Except.pure, Nat.add_assoc]

/-- What is read as a number is one. -/
theorem isNumber_of_numberLength (h : numberLength bs = .ok n) : IsNumber (bs.take n) := by
  unfold numberLength at h
  obtain ⟨whole, isWhole, h⟩ := read_bind_ok h
  obtain ⟨tail, isTail, h⟩ := read_bind_ok h
  cases h
  unfold numberTail at isTail
  obtain ⟨fraction, isFraction, isTail⟩ := read_bind_ok isTail
  obtain ⟨exponent, isExponent, isTail⟩ := read_bind_ok isTail
  cases isTail
  refine ⟨_, _, _, _, ?_, isSign_of_signLength [0x2D] bs, isWhole_of_wholeLength isWhole, isFraction_of_fractionLength isFraction,
    isExponent_of_exponentLength isExponent⟩
  rw [List.take_add, List.take_add, List.take_add, List.append_assoc, List.drop_drop]

/-- The rest of a word is read when it is there. -/
theorem readWord_eq_ok {word : String} {cs : List Char} (ascii : (cs.all fun c => c.toNat < 128) = true) :
    readWord word cs bs = .ok rest ↔ bs = cs.flatMap Text.encodeChar ++ rest := by
  induction cs generalizing bs with
  | nil =>
    rw [readWord, Except.ok.injEq]
    rfl
  | cons c cs ih =>
    obtain ⟨small, ascii⟩ := Bool.and_eq_true_iff.mp ascii
    have small := of_decide_eq_true small
    have single : Text.encodeChar c = [c.toNat.toUInt8] := if_pos small
    rw [List.flatMap_cons, single, List.append_assoc, List.singleton_append]
    cases bs with
    | nil =>
      constructor
      · rintro ⟨⟩
      · rintro ⟨⟩
    | cons b bs =>
      have same : b.toNat = c.toNat ↔ b = c.toNat.toUInt8 := by
        rw [← UInt8.toNat_inj, UInt8.toNat_ofNat', Nat.mod_eq_of_lt (by omega)]
      rw [readWord, List.cons.injEq]
      split
      · rename_i here
        rw [ih ascii]
        exact ⟨fun h => ⟨same.mp here, h⟩, And.right⟩
      · rename_i other
        constructor
        · rintro ⟨⟩
        · rintro ⟨h, -⟩
          exact absurd (same.mpr h) other

end Numbers

end ScriptEngine.Json
