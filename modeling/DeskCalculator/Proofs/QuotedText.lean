import DeskCalculator.Quotation
import DeskCalculator.Proofs.Lists

/-!
Quotations read back. A text is quoted character by character, and a reader that takes the escapes
back finds the text and the end of the quotation, whatever characters are seen in it. So nothing
is lost between quotation marks.
-/

namespace DeskCalculator

def lettered : Text := ['\x00', '\t', '\n', '\r', '"', '\\']

/-- What stands for a character in a quotation. -/
inductive Spells (visible : Char → Bool) : Char → Text → Prop where
  | nul : Spells visible '\x00' ['\\', '0']
  | tab : Spells visible '\t' ['\\', 't']
  | newline : Spells visible '\n' ['\\', 'n']
  | carriage : Spells visible '\r' ['\\', 'r']
  | quote : Spells visible '"' ['\\', '"']
  | backslash : Spells visible '\\' ['\\', '\\']
  | itself {c : Char} (ordinary : c ∉ lettered) (seen : visible c = true) : Spells visible c [c]
  | code {c : Char} (ordinary : c ∉ lettered) (hidden : visible c = false) :
      Spells visible c ('\\' :: 'u' :: '{' :: (Nat.toDigits 16 c.toNat ++ ['}']))

def Quotes (visible : Char → Bool) (text : Text) (quotation : String) : Prop :=
  ∃ pieces, List.Forall₂ (Spells visible) text pieces ∧
    quotation.toList = '"' :: (pieces.flatten ++ ['"'])

/-- Where a reader stands: between two characters, behind a backslash, or behind some digits of a
code point. -/
inductive Place where
  | between
  | escape
  | code (value : Nat)

def ofEscapeLetter? (letter : Char) : Option Char :=
  [('0', '\x00'), ('t', '\t'), ('n', '\n'), ('r', '\r'), ('"', '"'), ('\\', '\\')].lookup letter

def hexValue (c : Char) : Nat :=
  if c.isDigit then c.toNat - '0'.toNat else c.toNat - 'a'.toNat + 10

def withChar (c : Char) (read : Option (Text × Text)) : Option (Text × Text) :=
  read.map fun read => (c :: read.1, read.2)

/-- The text up to the mark that ends the quotation, and what stands behind that mark. -/
def unquoteFrom : Place → Text → Option (Text × Text)
  | _, [] => none
  | .between, c :: rest =>
    if c = '"' then some ([], rest)
    else if c = '\\' then unquoteFrom .escape rest
    else withChar c (unquoteFrom .between rest)
  | .escape, c :: rest =>
    if c = 'u' then unquoteFrom (.code 0) rest
    else (ofEscapeLetter? c).bind fun x => withChar x (unquoteFrom .between rest)
  | .code value, c :: rest =>
    if c = '{' then unquoteFrom (.code value) rest
    else if c = '}' then withChar (Char.ofNat value) (unquoteFrom .between rest)
    else unquoteFrom (.code (16 * value + hexValue c)) rest

def unquote? : Text → Option (Text × Text)
  | [] => none
  | c :: rest => if c = '"' then unquoteFrom .between rest else none

theorem unquoteFrom_digit (value digit : Nat) (small : digit < 16) (rest : Text) :
    unquoteFrom (.code value) (digit.digitChar :: rest) =
      unquoteFrom (.code (16 * value + digit)) rest := by
  have digits : ∀ d < 16, d.digitChar ≠ '{' ∧ d.digitChar ≠ '}' ∧ hexValue d.digitChar = d := by
    decide
  obtain ⟨opens, closes, read⟩ := digits digit small
  rw [unquoteFrom, if_neg opens, if_neg closes, read]

theorem unquoteFrom_digits (n : Nat) (rest : Text) :
    unquoteFrom (.code 0) (Nat.toDigits 16 n ++ rest) = unquoteFrom (.code n) rest := by
  induction n using Nat.strongRecOn generalizing rest with
  | ind n ih =>
      rcases Nat.lt_or_ge n 16 with small | large
      · rw [Nat.toDigits_of_lt_base small, List.singleton_append, unquoteFrom_digit 0 n small,
          Nat.mul_zero, Nat.zero_add]
      · have last : n % 16 < 16 := Nat.mod_lt n (by decide)
        rw [Nat.toDigits_of_base_le (by decide) large, List.append_assoc,
          ih (n / 16) (Nat.div_lt_self (by omega) (by decide)), List.singleton_append,
          unquoteFrom_digit _ _ last, Nat.div_add_mod]

section Quotation

variable {visible : Char → Bool}

theorem Spells.unquote {c : Char} {piece : Text} (spells : Spells visible c piece) (rest : Text) :
    unquoteFrom .between (piece ++ rest) = withChar c (unquoteFrom .between rest) := by
  cases spells with
  | itself ordinary seen =>
      simp only [lettered, List.mem_cons, List.not_mem_nil, or_false, not_or] at ordinary
      rw [List.singleton_append, unquoteFrom, if_neg ordinary.2.2.2.2.1, if_neg ordinary.2.2.2.2.2]
  | code ordinary hidden =>
      have opened : unquoteFrom .between
          ('\\' :: 'u' :: '{' :: (Nat.toDigits 16 c.toNat ++ ['}']) ++ rest) =
          unquoteFrom (.code 0) (Nat.toDigits 16 c.toNat ++ ('}' :: rest)) := by
        rw [List.cons_append, List.cons_append, List.cons_append, List.append_assoc]
        rfl
      rw [opened, unquoteFrom_digits, unquoteFrom, if_neg (by decide), if_pos rfl,
        Char.ofNat_toNat]
  | _ => rfl

/-- A quotation is read as the text it is made of, up to the mark that ends it. -/
theorem Quotes.unquote {text : Text} {quotation : String} (quotes : Quotes visible text quotation)
    (rest : Text) : unquote? (quotation.toList ++ rest) = some (text, rest) := by
  obtain ⟨pieces, spelled, whole⟩ := quotes
  have inside : unquoteFrom .between (pieces.flatten ++ ('"' :: rest)) = some (text, rest) := by
    clear whole
    induction spelled with
    | nil => rfl
    | cons first _ ih =>
        rw [List.flatten_cons, List.append_assoc, first.unquote, ih]
        rfl
  rw [whole, List.cons_append, unquote?, if_pos rfl, List.append_assoc]
  exact inside

variable (visible)

theorem escapeLetter?_eq_none {c : Char} (ordinary : c ∉ lettered) : escapeLetter? c = none := by
  simpa [escapeLetter?, lettered, List.lookup_eq_none_iff] using ordinary

theorem spells_iff (c : Char) (piece : Text) :
    Spells visible c piece ↔ piece = escaped visible c := by
  constructor
  · intro spells
    cases spells with
    | itself ordinary seen => simp [escaped, escapeLetter?_eq_none ordinary, seen]
    | code ordinary hidden => simp [escaped, escapeLetter?_eq_none ordinary, hidden]
    | _ => rfl
  · rintro rfl
    by_cases letter : c ∈ lettered
    · simp only [lettered, List.mem_cons, List.not_mem_nil, or_false] at letter
      rcases letter with rfl | rfl | rfl | rfl | rfl | rfl
      · exact .nul
      · exact .tab
      · exact .newline
      · exact .carriage
      · exact .quote
      · exact .backslash
    · rw [escaped, escapeLetter?_eq_none letter]
      cases seen : visible c with
      | true => exact .itself letter seen
      | false => exact .code letter seen

theorem quotes_iff (text : Text) (quotation : String) :
    Quotes visible text quotation ↔ quotation = quoted visible text := by
  have spelled (pieces : List Text) :=
    forall₂_eq_map (Spells visible) (escaped visible) text pieces (spells_iff visible)
  simp only [Quotes, spelled, exists_eq_left]
  rw [quoted, List.flatMap_def, ← String.toList_inj, String.toList_ofList]
  rfl

-- A letter, a glyph as it is, and a code point without zeros at its head.
example : ['\n', '÷', '\u0301'].flatMap (escaped (· != '\u0301')) =
    ['\\', 'n', '÷', '\\', 'u', '{', '3', '0', '1', '}'] := by
  decide

end Quotation

end DeskCalculator
