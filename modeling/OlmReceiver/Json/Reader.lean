import OlmReceiver.Json.Token

/-!
# Reading JSON texts

Reads values off the front of a text, in one pass and up to the first fault in reading order. The
grammar is the strict one: no byte order mark, no comments, no trailing commas. Kept values nest
at most `maxDepth` arrays and objects; skipped values nest without limit.

Lists of elements and members are read by generic loops, which shaped readers share. Their fuel is
the length of the text: every round uses up at least one byte.
-/

namespace OlmReceiver.Json

/-- How many arrays and objects may enclose a value, itself included. -/
def maxDepth : Nat := 127

variable {α σ : Type}

/-- Reads with the reader for what the first byte behind the blanks announces. -/
def dispatch (scalar array object : Reader α) (s : Text) : Except Fault (α × Text) :=
  match Text.dropBlanks s with
  | [] => .error .truncated
  | b :: r =>
    if b = Byte.openBracket then array r
    else if b = Byte.openBrace then object r
    else scalar (b :: r)

/--
Whether one more item comes before the closing bracket, which is left in place. Every item but the
first follows a comma, and a comma is followed by an item.
-/
def another (close : UInt8) (first : Bool) (s : Text) : Except Fault (Bool × Text) :=
  match Text.dropBlanks s with
  | [] => .error .truncated
  | b :: r =>
    if b = close then .ok (false, b :: r)
    else if first then .ok (true, b :: r)
    else if b = Byte.comma then
      match Text.dropBlanks r with
      | [] => .error .truncated
      | c :: r => if c = close then .error .malformed else .ok (true, c :: r)
    else .error .malformed

/-- Reads the elements of an array and its closing bracket. -/
def elements (item : Reader α) : (fuel : Nat) → (first : Bool) → Reader (List α)
  | 0, _, _ => .error .truncated
  | fuel + 1, first, s => do
    let (more, s) ← another Byte.closeBracket first s
    if more then
      let (a, s) ← item s
      let (as, s) ← elements item fuel false s
      .ok (a :: as, s)
    else .ok ([], s.tail)

/-- Reads the members of an object and its closing brace; `step` reads on behind a name. -/
def members (m : Mode) (step : σ → String → Reader σ) :
    (fuel : Nat) → (first : Bool) → σ → Reader σ
  | 0, _, _, _ => .error .truncated
  | fuel + 1, first, acc, s => do
    let (more, s) ← another Byte.closeBrace first s
    if more then
      let (name, s) ← Token.key m s
      let (acc, s) ← step acc name s
      members m step fuel false acc s
    else .ok (acc, s.tail)

/-- Reads the colon between the name and the value of a member. -/
def colon (s : Text) : Except Fault Text :=
  match Text.dropBlanks s with
  | [] => .error .truncated
  | b :: r => if b = Byte.colon then .ok r else .error .malformed

/-- Reads a colon and then the value of a member. -/
def memberValue (item : Reader α) (s : Text) : Except Fault (α × Text) := do
  let s ← colon s
  item s

/-- Reads a member into the dictionary of those before it. -/
def addMember (item : Reader Json) (ms : Members) (name : String) : Reader Members := fun s => do
  let (v, s) ← memberValue item s
  .ok (Dictionary.insert name v ms, s)

/-- Reads a value of at most the given depth. -/
def value (m : Mode) : (depth : Nat) → Reader Json
  | 0 => dispatch (Token.scalar m) (fun _ => .error .malformed) (fun _ => .error .malformed)
  | depth + 1 =>
    dispatch (Token.scalar m)
      (fun s => do
        let (items, s) ← elements (value m depth) (s.length + 1) true s
        .ok (.array items, s))
      (fun s => do
        let (ms, s) ← members m (addMember (value m depth)) (s.length + 1) true [] s
        .ok (.object ms, s))

/-- Passes over a value of any depth. -/
def skip (s : Text) : Except Fault Text := do
  let (_, s) ← value .skip s.length s
  .ok s

/-- Reads a whole text, of which only blanks may be left over. -/
def complete (item : Reader α) (s : Text) : Except Fault α := do
  let (a, s) ← item s
  if Text.dropBlanks s = [] then .ok a else .error .malformed

/-- The value that a text denotes. -/
def ofText (s : Text) : Except Fault Json :=
  complete (value .keep maxDepth) s

end OlmReceiver.Json
