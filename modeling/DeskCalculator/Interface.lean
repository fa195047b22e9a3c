import DeskCalculator.Buffer
import DeskCalculator.Keypad

/-!
The calculator as its user meets it: buttons that are clicked and frames of keyboard events.
Either way all that reaches the buffer is a list of keys, pressed in order.
-/

namespace DeskCalculator.Interface

inductive Event where
  | typed (text : Text)
  | key (name : String) (pressed repeated : Bool)
  | other
deriving DecidableEq

/-- A paste neither types nor is the stroke of a key. -/
def Event.pasted (_ : Text) : Event := other

def ofKeyName? (name : String) : Option Key :=
  if name = "Enter" then some .equals
  else if name = "Backspace" then some .backspace
  else if name = "Escape" ∨ name = "Delete" then some .clear
  else none

/-- The keys an event presses. A keyboard key acts when it goes down, and again at each
repeat. -/
def Event.keys : Event → List Key
  | typed text => text.filterMap Key.ofTyped?
  | key name pressed _ => if pressed then (ofKeyName? name).toList else []
  | other => []

inductive Step where
  | click (key : Key)
  | frame (events : List Event)
deriving DecidableEq

def Step.keys : Step → List Key
  | click key => [key]
  | frame events => events.flatMap Event.keys

def step (buffer : Buffer) (input : Step) : Buffer := Buffer.pressAll buffer input.keys

def run (steps : List Step) : Buffer := steps.foldl step Buffer.initial

end DeskCalculator.Interface
