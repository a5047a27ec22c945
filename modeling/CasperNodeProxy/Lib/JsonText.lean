import Mathlib.Data.List.TakeWhile
import CasperNodeProxy.Lib.Json

/-!
# JSON texts

A reader and a writer of JSON texts, as lists of characters. A number is kept as its lexeme.

* `Lexeme`, `readString`, `scalar`: numbers, strings and the other leaves.
* `value`, `read`: the reader; `write`: the writer, which puts no blanks.
* `readString_writeString`: what is written between quotes is read back.
* **`read_write`**: what is written is read back; `plain_write`: it is one line.
-/

namespace JsonText

/-! ## Leaves -/

/-- A blank between tokens. -/
def isSpace (c : Char) : Bool := c == ' ' || c == '\t' || c == '\n' || c == '\r'

/-- The text behind the blanks in front. -/
def skip (cs : List Char) : List Char := cs.dropWhile isSpace

/-- A character that can stand in a number. -/
def isNumberChar (c : Char) : Bool :=
  c.isDigit || c == '-' || c == '+' || c == '.' || c == 'e' || c == 'E'

/-- Digits without a leading zero, or one zero. -/
def isInteger : List Char → Bool
  | [] => false
  | ['0'] => true
  | c :: cs => c != '0' && (c :: cs).all Char.isDigit

/-- The rest of a number behind its digits is an exponent, or nothing. -/
def isExponent : List Char → Bool
  | [] => true
  | c :: cs =>
    let digits := match cs with
      | '+' :: ds => ds
      | '-' :: ds => ds
      | ds => ds
    (c == 'e' || c == 'E') && !digits.isEmpty && digits.all Char.isDigit

/-- The rest of a number behind its integer. -/
def isFraction : List Char → Bool
  | '.' :: cs => !(cs.takeWhile Char.isDigit).isEmpty && isExponent (cs.dropWhile Char.isDigit)
  | cs => isExponent cs

/-- The characters are a number of the grammar. -/
def isNumber (cs : List Char) : Bool :=
  let unsigned := match cs with
    | '-' :: r => r
    | r => r
  cs.all isNumberChar && isInteger (unsigned.takeWhile Char.isDigit) &&
    isFraction (unsigned.dropWhile Char.isDigit)

/-- The characters of a number. -/
def Lexeme : Type := { cs : List Char // isNumber cs = true }

/-- The trees that texts stand for: numbers are kept as they are written. -/
abbrev Tree : Type := Json Lexeme

/-- The value of a hexadecimal digit. -/
def hexVal (c : Char) : Option ℕ :=
  if '0' ≤ c ∧ c ≤ '9' then some (c.toNat - '0'.toNat)
  else if 'a' ≤ c ∧ c ≤ 'f' then some (c.toNat - 'a'.toNat + 10)
  else if 'A' ≤ c ∧ c ≤ 'F' then some (c.toNat - 'A'.toNat + 10)
  else none

/-- Four hexadecimal digits. -/
def hex4 (a b c d : Char) : Option ℕ :=
  (hexVal a).bind fun a => (hexVal b).bind fun b => (hexVal c).bind fun c =>
    (hexVal d).map fun d => ((a * 16 + b) * 16 + c) * 16 + d

/-- The character behind a backslash. -/
def unescape (c : Char) : Option Char :=
  if c = '"' then some '"'
  else if c = '\\' then some '\\'
  else if c = '/' then some '/'
  else if c = 'b' then some (.ofNat 8)
  else if c = 'f' then some (.ofNat 12)
  else if c = 'n' then some '\n'
  else if c = 'r' then some '\r'
  else if c = 't' then some '\t'
  else none

/-- The characters up to the closing quote, and the rest. -/
def readString : List Char → Option (List Char × List Char)
  | [] => none
  | c :: cs =>
    if c = '"' then some ([], cs)
    else if c = '\\' then
      match cs with
      | 'u' :: a :: b :: c :: d :: cs =>
        (hex4 a b c d).bind fun high =>
          if 0xD800 ≤ high ∧ high < 0xDC00 then
            -- a character outside the basic plane takes two escapes
            match cs with
            | '\\' :: 'u' :: a :: b :: c :: d :: cs =>
              (hex4 a b c d).bind fun low =>
                if 0xDC00 ≤ low ∧ low < 0xE000 then
                  let n := 0x10000 + (high - 0xD800) * 0x400 + (low - 0xDC00)
                  (readString cs).map fun p => (.ofNat n :: p.1, p.2)
                else none
            | _ => none
          else if 0xDC00 ≤ high ∧ high < 0xE000 then none
          else (readString cs).map fun p => (.ofNat high :: p.1, p.2)
      | e :: cs => (unescape e).bind fun c => (readString cs).map fun p => (c :: p.1, p.2)
      | [] => none
    else if c.toNat < 32 then none
    else (readString cs).map fun p => (c :: p.1, p.2)

/-- A number, and the rest. -/
def readNumber (cs : List Char) : Option (Tree × List Char) :=
  if h : isNumber (cs.takeWhile isNumberChar) = true then
    some (.number ⟨_, h⟩, cs.dropWhile isNumberChar)
  else none

/-- A leaf, and the rest. -/
def scalar : List Char → Option (Tree × List Char)
  | 'n' :: 'u' :: 'l' :: 'l' :: cs => some (.null, cs)
  | 't' :: 'r' :: 'u' :: 'e' :: cs => some (.bool true, cs)
  | 'f' :: 'a' :: 'l' :: 's' :: 'e' :: cs => some (.bool false, cs)
  | '"' :: cs => (readString cs).map fun p => (.string (.ofList p.1), p.2)
  | cs => readNumber cs

/-! ## Trees -/

mutual

/-- A value, and the rest; the number bounds the depth of the recursion. -/
def value : ℕ → List Char → Option (Tree × List Char)
  | 0, _ => none
  | n + 1, cs =>
    match skip cs with
    | '[' :: cs =>
      match skip cs with
      | ']' :: cs => some (.array [], cs)
      | cs => (value n cs).bind fun p => (items n p.2).map fun q => (.array (p.1 :: q.1), q.2)
    | '{' :: cs =>
      match skip cs with
      | '}' :: cs => some (.object [], cs)
      | cs => (member n cs).bind fun p => (members n p.2).map fun q => (.object (p.1 :: q.1), q.2)
    | cs => scalar cs

/-- The items behind the first one, up to the closing bracket. -/
def items : ℕ → List Char → Option (List Tree × List Char)
  | 0, _ => none
  | n + 1, cs =>
    match skip cs with
    | ']' :: cs => some ([], cs)
    | ',' :: cs => (value n cs).bind fun p => (items n p.2).map fun q => (p.1 :: q.1, q.2)
    | _ => none

/-- A name with its value, and the rest. -/
def member : ℕ → List Char → Option ((String × Tree) × List Char)
  | 0, _ => none
  | n + 1, cs =>
    match skip cs with
    | '"' :: cs =>
      (readString cs).bind fun p =>
        match skip p.2 with
        | ':' :: cs => (value n cs).map fun q => ((.ofList p.1, q.1), q.2)
        | _ => none
    | _ => none

/-- The members behind the first one, up to the closing brace. -/
def members : ℕ → List Char → Option (List (String × Tree) × List Char)
  | 0, _ => none
  | n + 1, cs =>
    match skip cs with
    | '}' :: cs => some ([], cs)
    | ',' :: cs => (member n cs).bind fun p => (members n p.2).map fun q => (p.1 :: q.1, q.2)
    | _ => none

end

/-- The tree of a text. -/
def read (cs : List Char) : Option Tree :=
  (value (cs.length + 1) cs).bind fun p => if skip p.2 = [] then some p.1 else none

/-! ## Writing -/

/-- The hexadecimal digit of a number below 16. -/
def hexDigit (n : ℕ) : Char := if n < 10 then .ofNat (48 + n) else .ofNat (87 + n)

/-- A character between quotes, escaped where it has to be. -/
def writeChar (c : Char) : List Char :=
  if c = '"' then ['\\', '"']
  else if c = '\\' then ['\\', '\\']
  else if 32 ≤ c.toNat then [c]
  else if c = .ofNat 8 then ['\\', 'b']
  else if c = .ofNat 12 then ['\\', 'f']
  else if c = '\n' then ['\\', 'n']
  else if c = '\r' then ['\\', 'r']
  else if c = '\t' then ['\\', 't']
  else ['\\', 'u', '0', '0', hexDigit (c.toNat / 16), hexDigit (c.toNat % 16)]

/-- A string between quotes. -/
def writeString (s : String) : List Char := '"' :: (s.toList.flatMap writeChar ++ ['"'])

mutual

/-- The text of a tree, without blanks. -/
def write : Tree → List Char
  | .null => ['n', 'u', 'l', 'l']
  | .bool true => ['t', 'r', 'u', 'e']
  | .bool false => ['f', 'a', 'l', 's', 'e']
  | .number n => n.1
  | .string s => writeString s
  | .array [] => ['[', ']']
  | .array (j :: l) => '[' :: (write j ++ writeItems l)
  | .object [] => ['{', '}']
  | .object ((k, j) :: l) => '{' :: (writeString k ++ ':' :: (write j ++ writeMembers l))

/-- The items behind the first one, and the closing bracket. -/
def writeItems : List Tree → List Char
  | [] => [']']
  | j :: l => ',' :: (write j ++ writeItems l)

/-- The members behind the first one, and the closing brace. -/
def writeMembers : List (String × Tree) → List Char
  | [] => ['}']
  | (k, j) :: l => ',' :: (writeString k ++ ':' :: (write j ++ writeMembers l))

end

/-! ## Strings are read back -/

theorem hexVal_hexDigit : ∀ n < 16, hexVal (hexDigit n) = some n := by decide

theorem readString_unescape {e c : Char} (hu : e ≠ 'u') (he : unescape e = some c)
    (cs : List Char) :
    readString ('\\' :: e :: cs) = (readString cs).map fun p => (c :: p.1, p.2) := by
  rw [readString, if_neg (by decide), if_pos rfl, he]
  · rfl
  · intro _ _ _ _ _ h
    exact absurd h hu

theorem readString_hex {c : Char} (hc : c.toNat < 256) (cs : List Char) :
    readString ('\\' :: 'u' :: '0' :: '0' :: hexDigit (c.toNat / 16) :: hexDigit (c.toNat % 16) ::
      cs) = (readString cs).map fun p => (c :: p.1, p.2) := by
  have h₀ : hexVal '0' = some 0 := by decide
  have h₁ := hexVal_hexDigit (c.toNat / 16) (by omega)
  have h₂ := hexVal_hexDigit (c.toNat % 16) (by omega)
  have hn : ((0 * 16 + 0) * 16 + c.toNat / 16) * 16 + c.toNat % 16 = c.toNat := by omega
  rw [readString, if_neg (by decide), if_pos rfl]
  simp only [hex4, h₀, h₁, h₂, Option.bind_some, Option.map_some, hn]
  rw [if_neg (by omega), if_neg (by omega), Char.ofNat_toNat]

theorem readString_quote (cs : List Char) : readString ('"' :: cs) = some ([], cs) := by
  rw [readString.eq_def]
  rfl

theorem readString_plain {c : Char} (hq : c ≠ '"') (hb : c ≠ '\\') (hc : 32 ≤ c.toNat)
    (cs : List Char) : readString (c :: cs) = (readString cs).map fun p => (c :: p.1, p.2) := by
  rw [readString.eq_def]
  dsimp only
  rw [if_neg hq, if_neg hb, if_neg (by omega)]

theorem readString_writeChar (c : Char) (cs : List Char) :
    readString (writeChar c ++ cs) = (readString cs).map fun p => (c :: p.1, p.2) := by
  unfold writeChar
  split_ifs with h₁ h₂ h₃ h₄ h₅ h₆ h₇ h₈
  · exact readString_unescape (by decide) (by rw [h₁]; rfl) cs
  · exact readString_unescape (by decide) (by rw [h₂]; rfl) cs
  · exact readString_plain h₁ h₂ h₃ cs
  · exact readString_unescape (by decide) (by rw [h₄]; rfl) cs
  · exact readString_unescape (by decide) (by rw [h₅]; rfl) cs
  · exact readString_unescape (by decide) (by rw [h₆]; rfl) cs
  · exact readString_unescape (by decide) (by rw [h₇]; rfl) cs
  · exact readString_unescape (by decide) (by rw [h₈]; rfl) cs
  · exact readString_hex (by omega) cs

/-- **What is written between quotes is read back.** -/
theorem readString_writeString (l cs : List Char) :
    readString (l.flatMap writeChar ++ '"' :: cs) = some (l, cs) := by
  induction l with
  | nil => exact readString_quote cs
  | cons c l ih =>
    rw [List.flatMap_cons, List.append_assoc, readString_writeChar, ih]
    rfl

/-! ## Trees are read back -/

/-- What may stand behind a value: nothing that belongs to a number. -/
def Ends (cs : List Char) : Prop := ∀ c ∈ cs.head?, isNumberChar c = false

theorem takeWhile_number {l cs : List Char} (hl : l.all isNumberChar = true) (hcs : Ends cs) :
    (l ++ cs).takeWhile isNumberChar = l ∧ (l ++ cs).dropWhile isNumberChar = cs := by
  induction l with
  | nil =>
    cases cs with
    | nil => exact ⟨rfl, rfl⟩
    | cons c cs =>
      have hc := hcs c rfl
      simp [hc]
  | cons c l ih =>
    rw [List.all_cons, Bool.and_eq_true] at hl
    obtain ⟨h₁, h₂⟩ := ih hl.2
    simp [hl.1, h₁, h₂]

theorem skip_cons {c : Char} (h : isSpace c = false) (cs : List Char) :
    skip (c :: cs) = c :: cs := by
  simp [skip, List.dropWhile, h]

theorem isNumber_all {cs : List Char} (h : isNumber cs = true) : cs.all isNumberChar = true := by
  unfold isNumber at h
  rw [Bool.and_eq_true, Bool.and_eq_true] at h
  exact h.1.1

theorem isSpace_of_numberChar {c : Char} (h : isNumberChar c = true) : isSpace c = false := by
  by_contra hs
  rw [Bool.not_eq_false] at hs
  simp only [isSpace, Bool.or_eq_true, beq_iff_eq] at hs
  rcases hs with ((rfl | rfl) | rfl) | rfl <;> cases h

theorem scalar_number (n : Lexeme) {cs : List Char} (hcs : Ends cs) :
    scalar (n.1 ++ cs) = some (.number n, cs) := by
  obtain ⟨l, hl⟩ := n
  have hall := isNumber_all hl
  obtain ⟨htake, hdrop⟩ := takeWhile_number hall hcs
  have hread : readNumber (l ++ cs) = some (.number ⟨l, hl⟩, cs) := by
    simp only [readNumber, htake, hdrop, hl, dif_pos]
  rw [← hread]
  cases l with
  | nil => cases hl
  | cons c l =>
    rw [List.all_cons, Bool.and_eq_true] at hall
    have hc : c ≠ 'n' ∧ c ≠ 't' ∧ c ≠ 'f' ∧ c ≠ '"' := by
      refine ⟨?_, ?_, ?_, ?_⟩ <;> rintro rfl <;> cases hall.1
    unfold scalar
    split <;> simp_all

/-- What a value begins with: no blank and no closing bracket. -/
structure Begins (cs : List Char) : Prop where
  head : ∃ c r, cs = c :: r ∧ isSpace c = false ∧ c ≠ ']' ∧ c ≠ '}'

theorem begins_cons {c : Char} {cs : List Char} (h : isSpace c = false ∧ c ≠ ']' ∧ c ≠ '}') :
    Begins (c :: cs) := ⟨c, cs, rfl, h⟩

theorem lexeme_head (n : Lexeme) : ∃ c cs, n.1 = c :: cs ∧ isNumberChar c = true := by
  obtain ⟨l, hl⟩ := n
  have hall := isNumber_all hl
  cases l with
  | nil => cases hl
  | cons c l =>
    rw [List.all_cons, Bool.and_eq_true] at hall
    exact ⟨c, l, rfl, hall.1⟩

theorem begins_lexeme (n : Lexeme) (cs : List Char) : Begins (n.1 ++ cs) := by
  obtain ⟨c, l, hl, hc⟩ := lexeme_head n
  rw [hl]
  refine begins_cons ⟨isSpace_of_numberChar hc, ?_, ?_⟩ <;> rintro rfl <;> cases hc

theorem begins_write (j : Tree) (cs : List Char) : Begins (write j ++ cs) := by
  cases j with
  | null => exact begins_cons (by decide)
  | bool b => cases b <;> exact begins_cons (by decide)
  | number n => exact begins_lexeme n cs
  | string s => exact begins_cons (by decide)
  | array l => cases l <;> exact begins_cons (by decide)
  | object l => cases l <;> exact begins_cons (by decide)

theorem Begins.skip {cs : List Char} (h : Begins cs) : skip cs = cs := by
  obtain ⟨c, r, rfl, hc, -, -⟩ := h.head
  exact skip_cons hc r

theorem value_array {n : ℕ} {cs : List Char} (h : Begins cs) :
    value (n + 1) ('[' :: cs) =
      (value n cs).bind fun p => (items n p.2).map fun q => (.array (p.1 :: q.1), q.2) := by
  have hskip := h.skip
  obtain ⟨c, r, rfl, -, hc, -⟩ := h.head
  rw [value, skip_cons (by decide)]
  simp only [hskip]
  split
  · next he => exact absurd (List.cons.inj he).1 hc
  · rfl

theorem value_object {n : ℕ} {cs : List Char} (h : Begins cs) :
    value (n + 1) ('{' :: cs) =
      (member n cs).bind fun p => (members n p.2).map fun q => (.object (p.1 :: q.1), q.2) := by
  have hskip := h.skip
  obtain ⟨c, r, rfl, -, -, hc⟩ := h.head
  rw [value, skip_cons (by decide)]
  simp only [hskip]
  split
  · next he => exact absurd (List.cons.inj he).1 hc
  · rfl

theorem ends_cons {c : Char} (h : isNumberChar c = false) (cs : List Char) : Ends (c :: cs) := by
  intro d hd
  cases hd
  exact h

theorem ends_writeItems (l : List Tree) (cs : List Char) : Ends (writeItems l ++ cs) := by
  cases l <;> exact ends_cons (by decide) _

theorem ends_writeMembers (l : List (String × Tree)) (cs : List Char) :
    Ends (writeMembers l ++ cs) := by
  cases l <;> exact ends_cons (by decide) _

/-- The tree is read back with enough fuel. -/
def ReadBack (j : Tree) : Prop :=
  ∀ n cs, (write j).length ≤ n → Ends cs → value n (write j ++ cs) = some (j, cs)

theorem items_write {l : List Tree} (hl : ∀ j ∈ l, ReadBack j) (n : ℕ) (cs : List Char)
    (hn : (writeItems l).length ≤ n) : items n (writeItems l ++ cs) = some (l, cs) := by
  induction l generalizing n with
  | nil =>
    cases n with
    | zero => cases hn
    | succ n =>
      rw [writeItems, List.singleton_append, items, skip_cons (by decide)]
      rfl
  | cons j l ih =>
    cases n with
    | zero => cases hn
    | succ n =>
      simp only [writeItems, List.length_cons, List.length_append] at hn
      have hj := hl j List.mem_cons_self n (writeItems l ++ cs) (by omega) (ends_writeItems l cs)
      have hrest := ih (fun i hi => hl i (List.mem_cons_of_mem _ hi)) n (by omega)
      rw [writeItems, List.cons_append, List.append_assoc, items, skip_cons (by decide)]
      simp only [hj, hrest, Option.bind_some, Option.map_some]

theorem member_write {k : String} {j : Tree} (hj : ReadBack j) (n : ℕ) {cs : List Char}
    (hn : (writeString k ++ ':' :: write j).length ≤ n) (hcs : Ends cs) :
    member n (writeString k ++ ':' :: (write j ++ cs)) = some ((k, j), cs) := by
  cases n with
  | zero => simp at hn
  | succ n =>
    simp only [writeString, List.length_cons, List.length_append] at hn
    have hv := hj n cs (by omega) hcs
    rw [writeString, List.cons_append, List.append_assoc, member, skip_cons (by decide)]
    simp only [List.singleton_append, readString_writeString, Option.bind_some,
      skip_cons (c := ':') (by decide), hv, Option.map_some, String.ofList_toList]

theorem members_write {l : List (String × Tree)} (hl : ∀ p ∈ l, ReadBack p.2) (n : ℕ)
    (cs : List Char) (hn : (writeMembers l).length ≤ n) :
    members n (writeMembers l ++ cs) = some (l, cs) := by
  induction l generalizing n with
  | nil =>
    cases n with
    | zero => cases hn
    | succ n =>
      rw [writeMembers, List.singleton_append, members, skip_cons (by decide)]
      rfl
  | cons p l ih =>
    obtain ⟨k, j⟩ := p
    cases n with
    | zero => simp [writeMembers] at hn
    | succ n =>
      simp only [writeMembers, List.length_cons, List.length_append] at hn
      have hlen : (writeString k ++ ':' :: write j).length ≤ n := by
        simp only [List.length_cons, List.length_append]
        omega
      have hj := member_write (hl (k, j) List.mem_cons_self) n hlen (ends_writeMembers l cs)
      have hrest := ih (fun q hq => hl q (List.mem_cons_of_mem _ hq)) n (by omega)
      rw [writeMembers, List.cons_append, List.append_assoc, List.cons_append, List.append_assoc,
        members, skip_cons (by decide)]
      simp only [hj, hrest, Option.bind_some, Option.map_some]

theorem value_scalar {n : ℕ} {cs : List Char} (h : Begins cs) (ha : cs.head? ≠ some '[')
    (ho : cs.head? ≠ some '{') : value (n + 1) cs = scalar cs := by
  rw [value, h.skip]
  split
  · exact absurd rfl ha
  · exact absurd rfl ho
  · rfl

theorem length_write_pos (j : Tree) : 0 < (write j).length := by
  obtain ⟨c, r, he, -⟩ := (begins_write j []).head
  rw [List.append_nil] at he
  rw [he]
  exact Nat.succ_pos _

theorem value_write (j : Tree) : ReadBack j := by
  induction j using Json.induct with
  | null =>
    rintro (_ | n) cs hn hcs
    · exact absurd hn (by simp [write])
    · rw [value_scalar (begins_write _ cs) (by simp [write]) (by simp [write])]
      rfl
  | bool b =>
    rintro (_ | n) cs hn hcs
    · exact absurd hn (Nat.not_le.mpr (length_write_pos _))
    · cases b <;> rw [value_scalar (begins_write _ cs) (by simp [write]) (by simp [write])] <;> rfl
  | number x =>
    rintro (_ | n) cs hn hcs
    · exact absurd hn (Nat.not_le.mpr (length_write_pos _))
    · obtain ⟨c, r, hx, hc⟩ := lexeme_head x
      rw [value_scalar (begins_write _ cs)]
      · exact scalar_number x hcs
      · rw [write, hx]
        rintro h
        cases h
        cases hc
      · rw [write, hx]
        rintro h
        cases h
        cases hc
  | string s =>
    rintro (_ | n) cs hn hcs
    · exact absurd hn (Nat.not_le.mpr (length_write_pos _))
    · rw [value_scalar (begins_write _ cs) (by simp [write, writeString])
        (by simp [write, writeString]), write, writeString, List.cons_append, List.append_assoc]
      simp only [scalar, List.singleton_append, readString_writeString, Option.map_some,
        String.ofList_toList]
  | array l ih =>
    rintro (_ | n) cs hn hcs
    · exact absurd hn (Nat.not_le.mpr (length_write_pos _))
    · cases l with
      | nil =>
        rw [write, List.cons_append, List.singleton_append, value, skip_cons (by decide)]
        simp only [skip_cons (c := ']') (by decide)]
      | cons j l =>
        simp only [write, List.length_cons, List.length_append] at hn
        have hj := ih j List.mem_cons_self n (writeItems l ++ cs) (by omega) (ends_writeItems l cs)
        have hl := items_write (fun i hi => ih i (List.mem_cons_of_mem _ hi)) n cs (by omega)
        rw [write, List.cons_append, List.append_assoc, value_array (begins_write j _)]
        simp only [hj, hl, Option.bind_some, Option.map_some]
  | object l ih =>
    rintro (_ | n) cs hn hcs
    · exact absurd hn (Nat.not_le.mpr (length_write_pos _))
    · cases l with
      | nil =>
        rw [write, List.cons_append, List.singleton_append, value, skip_cons (by decide)]
        simp only [skip_cons (c := '}') (by decide)]
      | cons p l =>
        obtain ⟨k, j⟩ := p
        simp only [write, List.length_cons, List.length_append] at hn
        have hlen : (writeString k ++ ':' :: write j).length ≤ n := by
          simp only [List.length_cons, List.length_append]
          omega
        have hj := member_write (ih (k, j) List.mem_cons_self) n hlen (ends_writeMembers l cs)
        have hl := members_write (fun q hq => ih q (List.mem_cons_of_mem _ hq)) n cs (by omega)
        have hbegins : Begins (writeString k ++ ':' :: (write j ++ (writeMembers l ++ cs))) :=
          begins_cons (c := '"') (by decide)
        rw [write, List.cons_append, List.append_assoc, List.cons_append, List.append_assoc,
          value_object hbegins]
        simp only [hj, hl, Option.bind_some, Option.map_some]

/-- **What is written is read back.** -/
theorem read_write (j : Tree) : read (write j) = some j := by
  have hv := value_write j ((write j).length + 1) [] (Nat.le_succ _) nofun
  rw [List.append_nil] at hv
  rw [read, hv]
  rfl

/-! ## No control characters -/

/-- No control character is in the text. -/
def Plain (cs : List Char) : Prop := ∀ c ∈ cs, 32 ≤ c.toNat

theorem plain_of_all {cs : List Char} (h : (cs.all fun c => decide (32 ≤ c.toNat)) = true) :
    Plain cs := fun c hc => of_decide_eq_true (List.all_eq_true.mp h c hc)

theorem Plain.cons {c : Char} {cs : List Char} (hc : 32 ≤ c.toNat) (h : Plain cs) :
    Plain (c :: cs) := List.forall_mem_cons.mpr ⟨hc, h⟩

theorem Plain.append {a b : List Char} (ha : Plain a) (hb : Plain b) : Plain (a ++ b) := by
  intro c hc
  rcases List.mem_append.mp hc with hc | hc
  · exact ha c hc
  · exact hb c hc

theorem plain_numberChar {c : Char} (h : isNumberChar c = true) : 32 ≤ c.toNat := by
  simp only [isNumberChar, Bool.or_eq_true, beq_iff_eq] at h
  rcases h with ((((h | rfl) | rfl) | rfl) | rfl) | rfl
  · have h₀ : '0'.toNat = 48 := rfl
    have := Char.isDigit_iff_toNat.mp h
    omega
  all_goals decide

theorem plain_hexDigit : ∀ n < 16, 32 ≤ (hexDigit n).toNat := by decide

theorem plain_writeChar (c : Char) : Plain (writeChar c) := by
  unfold writeChar
  split_ifs with h₁ h₂ h₃
  all_goals try exact plain_of_all rfl
  · exact Plain.cons h₃ nofun
  · have hhigh := plain_hexDigit (c.toNat / 16) (by omega)
    have hlow := plain_hexDigit (c.toNat % 16) (by omega)
    simp only [Plain, List.forall_mem_cons]
    exact ⟨by decide, by decide, by decide, by decide, hhigh, hlow, nofun⟩

theorem plain_writeString (s : String) : Plain (writeString s) := by
  refine Plain.cons (by decide) (Plain.append ?_ (Plain.cons (by decide) nofun))
  intro c hc
  obtain ⟨d, -, hd⟩ := List.mem_flatMap.mp hc
  exact plain_writeChar d c hd

theorem plain_writeItems {l : List Tree} (h : ∀ j ∈ l, Plain (write j)) :
    Plain (writeItems l) := by
  induction l with
  | nil => exact Plain.cons (by decide) nofun
  | cons j l ih =>
    have hl := ih fun i hi => h i (List.mem_cons_of_mem _ hi)
    exact Plain.cons (by decide) ((h j List.mem_cons_self).append hl)

theorem plain_writeMembers {l : List (String × Tree)} (h : ∀ p ∈ l, Plain (write p.2)) :
    Plain (writeMembers l) := by
  induction l with
  | nil => exact Plain.cons (by decide) nofun
  | cons p l ih =>
    have hl := ih fun q hq => h q (List.mem_cons_of_mem _ hq)
    exact Plain.cons (by decide) ((plain_writeString p.1).append
      (Plain.cons (by decide) ((h p List.mem_cons_self).append hl)))

/-- **A text has no control characters**, so it is one line. -/
theorem plain_write (j : Tree) : Plain (write j) := by
  induction j using Json.induct with
  | null => exact plain_of_all rfl
  | bool b => cases b <;> exact plain_of_all rfl
  | number n =>
    intro c hc
    exact plain_numberChar (List.all_eq_true.mp (isNumber_all n.2) c hc)
  | string s => exact plain_writeString s
  | array l ih =>
    cases l with
    | nil => exact plain_of_all rfl
    | cons j l =>
      have hl := plain_writeItems fun i hi => ih i (List.mem_cons_of_mem _ hi)
      exact Plain.cons (by decide) ((ih j List.mem_cons_self).append hl)
  | object l ih =>
    cases l with
    | nil => exact plain_of_all rfl
    | cons p l =>
      have hl := plain_writeMembers fun q hq => ih q (List.mem_cons_of_mem _ hq)
      exact Plain.cons (by decide) ((plain_writeString p.1).append
        (Plain.cons (by decide) ((ih p List.mem_cons_self).append hl)))

/-! ## Decimal digits -/

theorem toDigits_head {n : ℕ} (hn : 0 < n) : ∃ c cs, Nat.toDigits 10 n = c :: cs ∧ c ≠ '0' := by
  induction n using Nat.strong_induction_on with
  | h n ih =>
    by_cases hlt : n < 10
    · have hdigit : ∀ m < 10, 0 < m → m.digitChar ≠ '0' := by decide
      rw [Nat.toDigits_of_lt_base hlt]
      exact ⟨_, [], rfl, hdigit n hlt hn⟩
    · rw [Nat.toDigits_of_base_le (by omega) (by omega)]
      obtain ⟨c, cs, hcs, hc⟩ := ih (n / 10) (by omega) (by omega)
      exact ⟨c, cs ++ [(n % 10).digitChar], by rw [hcs]; rfl, hc⟩

theorem isDigit_toDigits (n : ℕ) : ∀ c ∈ Nat.toDigits 10 n, c.isDigit = true :=
  fun _ hc => Nat.isDigit_of_mem_toDigits (by decide) (by decide) hc

theorem isNumber_toDigits (n : ℕ) : isNumber (Nat.toDigits 10 n) = true := by
  rcases Nat.eq_zero_or_pos n with rfl | hn
  · decide
  obtain ⟨c, cs, hcs, hc⟩ := toDigits_head hn
  have hall := isDigit_toDigits n
  rw [hcs] at hall ⊢
  have hmem := List.forall_mem_cons.mp hall
  have htake : (c :: cs).takeWhile Char.isDigit = c :: cs :=
    List.takeWhile_eq_self_iff.mpr hall
  have hdrop : (c :: cs).dropWhile Char.isDigit = [] :=
    List.dropWhile_eq_nil_iff.mpr hall
  have hminus : c ≠ '-' := by
    rintro rfl
    cases hmem.1
  have hchars : (c :: cs).all isNumberChar = true := by
    refine List.all_eq_true.mpr fun d hd => ?_
    simp [isNumberChar, hall d hd]
  have hinteger : isInteger (c :: cs) = true := by
    unfold isInteger
    split
    · next he => cases he
    · next he => exact absurd (List.cons.inj he).1 hc
    · next he =>
      cases he
      rw [Bool.and_eq_true, bne_iff_ne]
      exact ⟨hc, List.all_eq_true.mpr hall⟩
  unfold isNumber
  dsimp only
  split
  · next he => exact absurd (List.cons.inj he).1 hminus
  · rw [htake, hdrop, hchars, hinteger]
    rfl

end JsonText
