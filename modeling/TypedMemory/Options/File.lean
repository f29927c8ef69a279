import TypedMemory.Json.Parse
import TypedMemory.Json.Render
import TypedMemory.Log
import TypedMemory.Options

/-!
# Options files

Options are kept in a file as one JSON object. A member that the file leaves out has its
default, and one that is no option is told and passed over. A missing file gives the
defaults.

An option that is a name may be given by any value, which then counts as its text, and
by `null`, which leaves an encoding or the policy open but is no byte order. The overlap
policy has to be one by name.
-/

namespace TypedMemory.Options

/-- The names of the options, in the order they are saved in. -/
def names : List Text := ["byteorder", "text_encoding", "wide_text_encoding", "overlap_policy"]

/-! ### Saving -/

/-- A text that may be left open. -/
def optionalText : Option Text → Value
  | some t => .text t
  | none => .unit

/-- The options as a record. -/
def toRecord (o : Options) : Value :=
  .record [
    ⟨"byteorder", .text (byteOrderName o.byteOrder)⟩,
    ⟨"text_encoding", optionalText o.textEncoding⟩,
    ⟨"wide_text_encoding", optionalText o.wideTextEncoding⟩,
    ⟨"overlap_policy", optionalText (o.overlapPolicy.map OverlapPolicy.name)⟩]

/-- **The contents of the file** that options are saved in. -/
def save (o : Options) : Except Error Text :=
  Json.render .indented o.toRecord

/-! ### Loading -/

variable [Host]

/-- The value of an option that is a name: the default if it is left out. -/
def nameOption (entries : List (Entry Value)) (name : Text) (default : Option Text) :
    Except Error (Option Text) :=
  match Value.lookup? entries name with
  | none => .ok default
  | some .unit => .ok none
  | some v => v.shown.map some

/-- The value of the overlap policy. -/
def policyOption (entries : List (Entry Value)) : Except Error (Option OverlapPolicy) :=
  match Value.lookup? entries "overlap_policy" with
  | none => .ok (some .replace)
  | some .unit => .ok none
  | some (.text name) =>
    match OverlapPolicy.ofName? name with
    | some policy => .ok (some policy)
    | none => .error (.failure .badValue)
  | some _ => .error (.failure .badValue)

/-- The byte order of this name. -/
def byteOrderOption (name : Option Text) : Except Error ByteOrder :=
  match name with
  | none => Error.fail (.invalid (.byteOrder "None"))
  | some name =>
    match byteOrderNamed? name with
    | some order => .ok order
    | none => Error.fail (.invalid (.byteOrder name.quoted))

/-- The options that the entries of a record give. -/
def ofEntries (entries : List (Entry Value)) : Except Error Options := do
  let order ← nameOption entries "byteorder" (some "little")
  let narrow ← nameOption entries "text_encoding" (some "utf-8")
  let wide ← nameOption entries "wide_text_encoding" (some "utf-16-le")
  let policy ← policyOption entries
  -- The byte order is judged last, after every option has been taken.
  let order ← byteOrderOption order
  pure ⟨order, narrow, wide, policy⟩

/-- The texts among the given ones that are no option names, each once and in order. -/
def unknown (given : List Text) : List Text :=
  (given.filter fun name => !names.contains name).eraseDups.mergeSort Text.le

/-- The note on names that are no options, if there are any. -/
def unknownNotes (path : Text) (given : List Text) : List Log.Event :=
  if (unknown given).isEmpty then [] else [.unknownOptions path (unknown given)]

/-- The texts of the items, if all are texts. -/
def texts? (items : List Value) : Option (List Text) :=
  items.mapM fun
    | .text t => some t
    | _ => none

/-- The options of a value read from a file, and what is noted. Only an object has
members; the items of an array and the letters of a text are looked at for names
before they are refused. -/
def ofValue (path : Text) (v : Value) : List Log.Event × Except Error Options :=
  match v with
  | .record entries => (unknownNotes path (entries.map Entry.name), ofEntries entries)
  | .array items =>
    match texts? items with
    | some given => (unknownNotes path given, .error (.failure .noAttribute))
    | none => ([], .error (.failure .badKind))
  | .text t => (unknownNotes path (t.map ([·])), .error (.failure .noAttribute))
  | _ => ([], .error (.failure .badKind))

/-- **The options in a file** with the given contents, none for a missing file, and
what is noted. -/
def load (path : Text) (contents : Option Text) : List Log.Event × Except Error Options :=
  match contents with
  | none => ([.noOptions path], .ok {})
  | some t =>
    match Json.parse t with
    | .error fault => ([], .error (.failure fault))
    | .ok v => ofValue path v

end TypedMemory.Options
