import DeskCalculator.Journal
import DeskCalculator.Proofs.InterfaceRuns
import DeskCalculator.Proofs.QuotedText
import DeskCalculator.Proofs.Typing

/-!
The journal read back. Each key has one line, with its label and the buffer it meets, and only an
evaluation that fails has another one behind it, with the cause. The keys that the labels name may
not be the keys that were pressed, as the digit keys past nine have the label of the nine; but
they write what their label says, so the run of the named keys passes through the same buffers and
leaves the same lines.
-/

namespace DeskCalculator

namespace Key

def named : Key → Key
  | digit n => digit (min n 9)
  | key => key

theorem digitGlyph_min (n : Nat) : digitGlyph (min n 9) = digitGlyph n := by
  rw [digitGlyph, digitGlyph, Nat.min_assoc, Nat.min_self]

theorem ofLabel?_label (key : Key) : ofLabel? key.label = some key.named := by
  cases key with
  | digit n =>
      have digits : ∀ m < 10, ofGlyph? m.digitChar = some (digit m) := by decide
      exact digits (min n 9) (by omega)
  | operator op => cases op <;> rfl
  | point => rfl
  | clear => rfl
  | backspace => rfl
  | sign => rfl
  | equals => rfl

theorem label_named (key : Key) : key.named.label = key.label := by
  cases key with
  | digit n => rw [named, label, digitGlyph_min, label]
  | _ => rfl

end Key

theorem Buffer.press_named (buffer : Buffer) (key : Key) :
    press buffer key.named = press buffer key := by
  cases key with
  | digit n => rw [Key.named, press, Key.digitGlyph_min, press]
  | _ => rfl

theorem Interface.length_passed (keys : List Key) (buffer : Buffer) :
    (passed buffer keys).length = keys.length := by
  induction keys generalizing buffer with
  | nil => rfl
  | cons key rest ih => rw [passed, List.length_cons, List.length_cons, ih]

theorem Interface.passed_named (keys : List Key) (buffer : Buffer) :
    passed buffer (keys.map Key.named) = passed buffer keys := by
  induction keys generalizing buffer with
  | nil => rfl
  | cons key rest ih => rw [List.map_cons, passed, passed, Buffer.press_named, ih]

namespace Journal

open Buffer

theorem entries_named (buffer : Buffer) (key : Key) :
    entries buffer key.named = entries buffer key := by
  cases key with
  | digit n =>
      change [Entry.pressed (Key.digit n).named.label buffer] =
        [.pressed (Key.digit n).label buffer]
      rw [Key.label_named]
  | _ => rfl

theorem run_named (keys : List Key) (buffer : Buffer) :
    run buffer (keys.map Key.named) = run buffer keys := by
  induction keys generalizing buffer with
  | nil => rfl
  | cons key rest ih => rw [List.map_cons, run, run, entries_named, press_named, ih]

/-- The lines of a run of keys, with the given characters seen in quotations. -/
def lines (visible : Char → Bool) (buffer : Buffer) (keys : List Key) : List String :=
  (run buffer keys).map (·.line visible)

inductive Words (visible : Char → Bool) : EvalError → String → Prop where
  | empty : Words visible .empty "entrée vide"
  | unexpectedChar {c : Char} : Words visible (.unexpectedChar c)
      ("caractère inattendu: '" ++ String.singleton c ++ "'")
  | malformedNumber {text : Text} {quotation : String} (quotes : Quotes visible text quotation) :
      Words visible (.malformedNumber text) ("nombre invalide: " ++ quotation)
  | malformedExpression : Words visible .malformedExpression "expression invalide"
  | notFinite : Words visible .notFinite "résultat non fini"

/-- The lines that a journal of the keys holds, from the given buffer on: one for each key, and one
for the cause where an evaluation fails, which leaves the buffer as it is. -/
inductive Logs (visible : Char → Bool) : Buffer → List Key → List String → Prop where
  | nil {buffer : Buffer} : Logs visible buffer [] []
  | pressed {buffer : Buffer} {key : Key} {rest : List Key} {later : List String}
      {label shown : String} (quotesLabel : Quotes visible key.label label)
      (quotesBuffer : Quotes visible buffer shown)
      (evaluable : key = .equals → ∃ text, evaluate buffer = .ok text)
      (others : Logs visible (press buffer key) rest later) :
      Logs visible buffer (key :: rest) (("TRACE touche " ++ label ++ " sur " ++ shown) :: later)
  | failed {buffer : Buffer} {rest : List Key} {later : List String} {label shown : String}
      {message : String} {cause : EvalError} (quotesLabel : Quotes visible Key.equals.label label)
      (quotesBuffer : Quotes visible buffer shown) (fails : evaluate buffer = .error cause)
      (words : Words visible cause message) (others : Logs visible buffer rest later) :
      Logs visible buffer (.equals :: rest) (("TRACE touche " ++ label ++ " sur " ++ shown) ::
        ("DEBUG évaluation ignorée pour " ++ shown ++ ": " ++ message) :: later)

def pressOfLine? (line : String) : Option (Text × Buffer) := do
  let opened ← line.toList.dropPrefix? "TRACE touche ".toList
  let (label, between) ← unquote? opened
  let (buffer, behind) ← unquote? (← between.dropPrefix? " sur ".toList)
  if behind = [] then some (label, buffer) else none

section Lines

variable {visible : Char → Bool}

theorem lines_pressed (buffer : Buffer) (key : Key) (rest : List Key)
    (evaluable : key = .equals → ∃ text, evaluate buffer = .ok text) :
    lines visible buffer (key :: rest) =
      ("TRACE touche " ++ quoted visible key.label ++ " sur " ++ quoted visible buffer) ::
        lines visible (press buffer key) rest := by
  have alone : entries buffer key = [.pressed key.label buffer] := by
    cases key with
    | equals =>
        obtain ⟨text, evaluated⟩ := evaluable rfl
        simp [entries, evaluated]
    | _ => rfl
  rw [lines, run, alone]
  rfl

theorem lines_failed (buffer : Buffer) (rest : List Key) (cause : EvalError)
    (fails : evaluate buffer = .error cause) :
    lines visible buffer (.equals :: rest) =
      ("TRACE touche " ++ quoted visible Key.equals.label ++ " sur " ++ quoted visible buffer) ::
        ("DEBUG évaluation ignorée pour " ++ quoted visible buffer ++ ": " ++
          cause.message visible) :: lines visible buffer rest := by
  have followed : entries buffer .equals =
      [.pressed Key.equals.label buffer, .failed buffer cause] := by
    simp [entries, fails]
  have kept : press buffer .equals = buffer := result_of_error buffer cause fails
  rw [lines, run, followed, kept]
  rfl

theorem words_iff (cause : EvalError) (message : String) :
    Words visible cause message ↔ message = cause.message visible := by
  constructor
  · intro words
    cases words with
    | malformedNumber quotes =>
        rw [quotes_iff] at quotes
        subst quotes
        rfl
    | _ => rfl
  · rintro rfl
    cases cause with
    | malformedNumber text =>
        have quotes : Quotes visible text (quoted visible text) :=
          (quotes_iff visible text _).mpr rfl
        exact .malformedNumber quotes
    | _ => constructor

theorem logs_iff (buffer : Buffer) (keys : List Key) (logged : List String) :
    Logs visible buffer keys logged ↔ logged = lines visible buffer keys := by
  constructor
  · intro logs
    induction logs with
    | nil => rfl
    | pressed quotesLabel quotesBuffer evaluable _ ih =>
        rw [quotes_iff] at quotesLabel quotesBuffer
        rw [lines_pressed _ _ _ evaluable, ih, quotesLabel, quotesBuffer]
    | failed quotesLabel quotesBuffer fails words _ ih =>
        rw [quotes_iff] at quotesLabel quotesBuffer
        rw [words_iff] at words
        rw [lines_failed _ _ _ fails, ih, quotesLabel, quotesBuffer, words]
  · rintro rfl
    induction keys generalizing buffer with
    | nil => exact .nil
    | cons key rest ih =>
        have labelled := (quotes_iff visible key.label _).mpr rfl
        have shown := (quotes_iff visible buffer _).mpr rfl
        by_cases evaluable : key = .equals → ∃ text, evaluate buffer = .ok text
        · rw [lines_pressed buffer key rest evaluable]
          exact .pressed labelled shown evaluable (ih _)
        · obtain ⟨rfl, unshown⟩ := Classical.not_imp.mp evaluable
          cases evaluated : evaluate buffer with
          | ok text => exact absurd ⟨text, evaluated⟩ unshown
          | error cause =>
              rw [lines_failed buffer rest cause evaluated]
              exact .failed labelled shown evaluated ((words_iff cause _).mpr rfl) (ih _)

theorem pressOfLine?_pressed {text buffer : Text} {label shown : String}
    (quotesLabel : Quotes visible text label) (quotesBuffer : Quotes visible buffer shown) :
    pressOfLine? ("TRACE touche " ++ label ++ " sur " ++ shown) = some (text, buffer) := by
  have opened (opening : String) (rest : Text) :
      (opening.toList ++ rest).dropPrefix? opening.toList = some rest :=
    List.dropPrefix?_append_of_beq rest (BEq.refl _)
  have last := quotesBuffer.unquote []
  rw [List.append_nil] at last
  simp only [pressOfLine?, String.toList_append, List.append_assoc, opened, quotesLabel.unquote,
    last, Option.bind_eq_bind, Option.bind_some, ↓reduceIte]

theorem pressOfLine?_failed (shown message : String) :
    pressOfLine? ("DEBUG évaluation ignorée pour " ++ shown ++ ": " ++ message) = none := by
  obtain ⟨due, opening⟩ : ∃ due, "TRACE touche ".toList = 'T' :: due := ⟨_, rfl⟩
  obtain ⟨rest, other⟩ : ∃ rest, "DEBUG évaluation ignorée pour ".toList = 'D' :: rest := ⟨_, rfl⟩
  have unopened : (('D' :: rest) ++ shown.toList ++ ": ".toList ++ message.toList).dropPrefix?
      ('T' :: due) = none := rfl
  simp only [pressOfLine?, String.toList_append, opening, other, unopened]
  rfl

theorem Logs.presses {buffer : Buffer} {keys : List Key} {logged : List String}
    (logs : Logs visible buffer keys logged) : logged.filterMap pressOfLine? =
      (keys.map Key.label).zip (buffer :: Interface.passed buffer keys) := by
  induction logs with
  | nil => rfl
  | pressed quotesLabel quotesBuffer _ _ ih =>
      rw [List.filterMap_cons_some (pressOfLine?_pressed quotesLabel quotesBuffer), ih]
      rfl
  | @failed buffer rest _ _ _ _ cause quotesLabel quotesBuffer fails _ _ ih =>
      have kept : press buffer .equals = buffer := result_of_error buffer cause fails
      rw [List.filterMap_cons_some (pressOfLine?_pressed quotesLabel quotesBuffer),
        List.filterMap_cons_none (pressOfLine?_failed _ _), ih, List.map_cons, Interface.passed,
        kept]
      rfl

end Lines

theorem mapM_ofLabel? (keys : List Key) :
    (keys.map Key.label).mapM Key.ofLabel? = some (keys.map Key.named) := by
  have reads : Key.ofLabel? ∘ Key.label = fun key => some key.named := funext Key.ofLabel?_label
  rw [List.mapM_map, reads]
  exact List.mapM_pure

/-- The journal of a run, whatever characters are seen in its quotations: it has one line for each
key, in which the label and the buffer that the key meets can be read, and behind that another one
just where an evaluation fails. With the keys that the labels name the run is repeated: the buffer
is the same after every key, and so are the lines. -/
theorem journal_replays (visible : Char → Bool) (buffer : Buffer) (keys : List Key) :
    (∀ logged, Logs visible buffer keys logged ↔ logged = lines visible buffer keys) ∧
    (lines visible buffer keys).filterMap pressOfLine? =
      (keys.map Key.label).zip (buffer :: Interface.passed buffer keys) ∧
    ∃ read, (((lines visible buffer keys).filterMap pressOfLine?).map Prod.fst).mapM
        Key.ofLabel? = some read ∧
      Interface.passed buffer read = Interface.passed buffer keys ∧
      lines visible buffer read = lines visible buffer keys := by
  have logs : Logs visible buffer keys (lines visible buffer keys) :=
    (logs_iff buffer keys _).mpr rfl
  have passes : (keys.map Key.label).length ≤ (buffer :: Interface.passed buffer keys).length := by
    rw [List.length_map, List.length_cons, Interface.length_passed]
    exact Nat.le_succ _
  refine ⟨logs_iff buffer keys, logs.presses, keys.map Key.named, ?_,
    Interface.passed_named keys buffer, ?_⟩
  · rw [logs.presses, List.map_fst_zip passes]
    exact mapM_ofLabel? keys
  · rw [lines, run_named, lines]

end Journal

end DeskCalculator
