import DeskCalculator.Interface
import DeskCalculator.Proofs.Lists

/-!
Runs of the interface. Whatever is clicked or typed, the buffer is that of the keys it gives,
pressed one by one: where a frame or a typed text ends makes no difference, and the same buffers
can be passed through with the buttons alone.
-/

namespace DeskCalculator

namespace Key

theorem operator_mem_keys (op : Operator) : operator op ∈ Keypad.keys := by
  cases op <;> decide

theorem digit_mem_keys (c : Char) (isDigit : c.isDigit = true) :
    digit (c.toNat - '0'.toNat) ∈ Keypad.keys := by
  have below : c.toNat - '0'.toNat < 10 := by
    have bounds := Char.isDigit_iff_toNat.mp isDigit
    have zero : '0'.toNat = 48 := rfl
    have nine : '9'.toNat = 57 := rfl
    omega
  have present : ∀ n < 10, digit n ∈ Keypad.keys := by decide
  exact present _ below

theorem mem_keys_of_ofGlyph? (c : Char) (key : Key) (found : ofGlyph? c = some key) :
    key ∈ Keypad.keys := by
  unfold ofGlyph? at found
  split at found
  · cases found
    decide
  split at found
  · cases found
    decide
  split at found
  · cases found
    decide
  split at found
  · cases found
    exact digit_mem_keys c ‹_›
  · obtain ⟨op, _, rfl⟩ := Option.map_eq_some_iff.mp found
    exact operator_mem_keys op

theorem mem_keys_of_ofTyped? (c : Char) (key : Key) (found : ofTyped? c = some key) :
    key ∈ Keypad.keys := by
  unfold ofTyped? at found
  split at found
  · cases found
    decide
  split at found
  · cases found
    exact operator_mem_keys .times
  split at found
  · cases found
    exact operator_mem_keys .divide
  · exact mem_keys_of_ofGlyph? c key found

end Key

namespace Interface

/-- The keyboard keys that act although they type nothing. -/
def actingKeys : List String := ["Enter", "Backspace", "Escape", "Delete"]

/-- The keys an event gives: one for each character that has one, in their order, one for each
stroke or repeat of an acting key, and nothing otherwise. -/
inductive Event.Gives : Event → List Key → Prop
  | typed (text : Text) : Gives (.typed text) (text.filterMap Key.ofTyped?)
  | enter (repeated : Bool) : Gives (.key "Enter" true repeated) [.equals]
  | backspace (repeated : Bool) : Gives (.key "Backspace" true repeated) [.backspace]
  | escape (repeated : Bool) : Gives (.key "Escape" true repeated) [.clear]
  | delete (repeated : Bool) : Gives (.key "Delete" true repeated) [.clear]
  | idle (name : String) (repeated : Bool) (silent : name ∉ actingKeys) :
      Gives (.key name true repeated) []
  | released (name : String) (repeated : Bool) : Gives (.key name false repeated) []
  | other : Gives .other []

/-- The keys a step gives: that of the button clicked, or those of a frame's events. -/
inductive Step.Gives : Step → List Key → Prop
  | click (key : Key) : Gives (.click key) [key]
  | frame (events : List Event) (given : List (List Key))
      (each : List.Forall₂ Event.Gives events given) : Gives (.frame events) given.flatten

/-- Only the buttons of the keypad can be clicked. -/
def Step.Possible : Step → Prop
  | .click key => key ∈ Keypad.keys
  | .frame _ => True

/-- The buffers passed through by pressing keys, one after each. -/
def passed (buffer : Buffer) : List Key → List Buffer
  | [] => []
  | key :: rest => buffer.press key :: passed (buffer.press key) rest

/-- The buffers passed through by a run from the given buffer. -/
def trace (buffer : Buffer) : List Step → List Buffer
  | [] => []
  | input :: rest => passed buffer input.keys ++ trace (step buffer input) rest

theorem Event.gives_iff (event : Event) (keys : List Key) :
    event.Gives keys ↔ keys = event.keys := by
  constructor
  · rintro (_ | _ | _ | _ | _ | ⟨name, repeated, silent⟩ | _ | _)
    case idle =>
      simp only [actingKeys, List.mem_cons, List.not_mem_nil, or_false, not_or] at silent
      simp [Event.keys, ofKeyName?, silent]
    all_goals rfl
  · rintro rfl
    cases event with
    | typed text => exact .typed text
    | other => exact .other
    | key name pressed repeated =>
        cases pressed with
        | false => exact .released name repeated
        | true =>
            by_cases acting : name ∈ actingKeys
            · simp only [actingKeys, List.mem_cons, List.not_mem_nil, or_false] at acting
              rcases acting with rfl | rfl | rfl | rfl
              · exact .enter repeated
              · exact .backspace repeated
              · exact .escape repeated
              · exact .delete repeated
            · have nothing : (Event.key name true repeated).keys = [] := by
                simp only [actingKeys, List.mem_cons, List.not_mem_nil, or_false, not_or]
                  at acting
                simp [Event.keys, ofKeyName?, acting]
              rw [nothing]
              exact .idle name repeated acting

theorem Step.gives_iff (input : Step) (keys : List Key) :
    input.Gives keys ↔ keys = input.keys := by
  have each (events : List Event) (given : List (List Key)) :=
    forall₂_eq_map Event.Gives Event.keys events given Event.gives_iff
  constructor
  · rintro (_ | ⟨events, given, eachGives⟩)
    · rfl
    · rw [(each events given).mp eachGives]
      rfl
  · rintro rfl
    cases input with
    | click key => exact .click key
    | frame events => exact .frame events _ ((each events _).mpr rfl)

theorem Event.mem_keypad (event : Event) (key : Key) (given : key ∈ event.keys) :
    key ∈ Keypad.keys := by
  cases event with
  | typed text =>
      obtain ⟨c, _, found⟩ := List.mem_filterMap.mp given
      exact Key.mem_keys_of_ofTyped? c key found
  | other => cases given
  | key name pressed repeated =>
      cases pressed with
      | false => cases given
      | true =>
          simp only [Event.keys, ofKeyName?, ↓reduceIte] at given
          split_ifs at given <;> simp at given <;> subst given <;> decide

theorem Step.mem_keypad (input : Step) (possible : input.Possible) (key : Key)
    (given : key ∈ input.keys) : key ∈ Keypad.keys := by
  cases input with
  | click button =>
      obtain rfl := List.mem_singleton.mp given
      exact possible
  | frame events =>
      obtain ⟨event, _, fromEvent⟩ := List.mem_flatMap.mp given
      exact event.mem_keypad key fromEvent

theorem passed_append (keys more : List Key) (buffer : Buffer) :
    passed buffer (keys ++ more) = passed buffer keys ++ passed (buffer.pressAll keys) more := by
  induction keys generalizing buffer with
  | nil => rfl
  | cons key rest ih => simp [passed, Buffer.pressAll, ih]

theorem foldl_step (steps : List Step) (buffer : Buffer) :
    steps.foldl step buffer = buffer.pressAll (steps.flatMap Step.keys) := by
  induction steps generalizing buffer with
  | nil => rfl
  | cons input rest ih => simp [ih, step, Buffer.pressAll_append]

theorem run_eq_pressAll (steps : List Step) :
    run steps = Buffer.initial.pressAll (steps.flatMap Step.keys) :=
  foldl_step steps Buffer.initial

theorem trace_eq_passed (steps : List Step) (buffer : Buffer) :
    trace buffer steps = passed buffer (steps.flatMap Step.keys) := by
  induction steps generalizing buffer with
  | nil => rfl
  | cons input rest ih => simp [trace, ih, step, passed_append]

theorem keys_clicks (keys : List Key) : (keys.map Step.click).flatMap Step.keys = keys := by
  induction keys with
  | nil => rfl
  | cons key rest ih => simp [Step.keys, ih]

theorem keys_frames (frames : List (List Event)) :
    (frames.map Step.frame).flatMap Step.keys = (Step.frame frames.flatten).keys := by
  induction frames with
  | nil => rfl
  | cons events rest ih => simp_all [Step.keys]

theorem keys_texts (texts : List Text) :
    (texts.map Event.typed).flatMap Event.keys = (Event.typed texts.flatten).keys := by
  induction texts with
  | nil => rfl
  | cons text rest ih => simp_all [Event.keys]

theorem run_clicks (steps : List Step) :
    run ((steps.flatMap Step.keys).map .click) = run steps := by
  rw [run_eq_pressAll, keys_clicks, run_eq_pressAll]

theorem trace_clicks (steps : List Step) (buffer : Buffer) :
    trace buffer ((steps.flatMap Step.keys).map .click) = trace buffer steps := by
  rw [trace_eq_passed, keys_clicks, trace_eq_passed]

theorem run_cut_frame (before after : List Step) (frames : List (List Event)) :
    run (before ++ frames.map .frame ++ after) =
      run (before ++ .frame frames.flatten :: after) := by
  simp [run_eq_pressAll, keys_frames]

theorem run_cut_text (before after : List Step) (earlier later : List Event)
    (texts : List Text) :
    run (before ++ .frame (earlier ++ texts.map .typed ++ later) :: after) =
      run (before ++ .frame (earlier ++ .typed texts.flatten :: later) :: after) := by
  have typed := keys_texts texts
  simp [run_eq_pressAll, Step.keys, typed]

/-- A run is a run of single presses of keys on the keypad. Its keys are those its steps give,
in their order, and its buffers are those of clicking them; cutting a frame into frames, or a
typed text into texts, leaves the last buffer as it was. -/
theorem run_refines_presses (steps : List Step) (possible : ∀ input ∈ steps, input.Possible) :
    (∃ given, (∀ other, List.Forall₂ Step.Gives steps other ↔ other = given) ∧
      run steps = Buffer.initial.pressAll given.flatten ∧
      (∀ key ∈ given.flatten, key ∈ Keypad.keys) ∧
      run (given.flatten.map .click) = run steps ∧
      trace Buffer.initial (given.flatten.map .click) = trace Buffer.initial steps ∧
      ∀ done, done <+: steps →
        ∃ clicked, clicked <+: given.flatten ∧ run (clicked.map .click) = run done) ∧
    (∀ (before after : List Step) (frames : List (List Event)),
      steps = before ++ .frame frames.flatten :: after →
      run (before ++ frames.map .frame ++ after) = run steps) ∧
    (∀ (before after : List Step) (earlier later : List Event) (texts : List Text),
      steps = before ++ .frame (earlier ++ .typed texts.flatten :: later) :: after →
      run (before ++ .frame (earlier ++ texts.map .typed ++ later) :: after) = run steps) := by
  refine ⟨⟨steps.map Step.keys, ?_, run_eq_pressAll steps, ?_, run_clicks steps,
    trace_clicks steps Buffer.initial, ?_⟩, ?_, ?_⟩
  · intro other
    exact forall₂_eq_map Step.Gives Step.keys steps other Step.gives_iff
  · intro key member
    obtain ⟨input, present, given⟩ := List.mem_flatMap.mp member
    exact input.mem_keypad (possible input present) key given
  · rintro done ⟨rest, rfl⟩
    have first : done.flatMap Step.keys <+: ((done ++ rest).map Step.keys).flatten :=
      ⟨rest.flatMap Step.keys, by simp [List.flatMap]⟩
    exact ⟨done.flatMap Step.keys, first, run_clicks done⟩
  · rintro before after frames rfl
    exact run_cut_frame before after frames
  · rintro before after earlier later texts rfl
    exact run_cut_text before after earlier later texts

theorem run_refines_presses_mixed :
    let events : List Event := [.typed ['5', 'a', '×'], .key "Enter" false false,
      .key "Backspace" true true, .pasted ['7']]
    let steps : List Step := [.frame events, .click .point]
    (∀ input ∈ steps, input.Possible) ∧ run steps = ['5', '.'] ∧
      run [.frame (events.take 1), .frame (events.drop 1), .click .point] = ['5', '.'] := by
  intro events steps
  have possible : ∀ input ∈ steps, input.Possible := by
    intro input member
    rcases List.mem_pair.mp member with rfl | rfl
    · trivial
    · exact (by decide : Key.point ∈ Keypad.keys)
  have last : run steps = ['5', '.'] := by decide
  have cut := (run_refines_presses steps possible).2.1 [] [.click .point]
    [events.take 1, events.drop 1] rfl
  exact ⟨possible, last, cut.trans last⟩

end Interface

end DeskCalculator
