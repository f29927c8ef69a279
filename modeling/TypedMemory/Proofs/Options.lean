import TypedMemory.Command.Run
import TypedMemory.Options.File
import TypedMemory.Proofs.Json.Reading
import TypedMemory.Proofs.Value

/-!
# Options survive the disk

What options are saved as is loaded as the same options, and so is any object with the same
members for the options, in whatever order, spelled in whatever way, and with any members beside
them that are no options; what is left out of it has its default
(`TypedMemory.Options.load_save`).

Only the lookups of the four names count (`TypedMemory.Options.ofEntries_congr`), and a lookup
sees nothing of the members with other names
(`TypedMemory.Value.lookup?_eq_of_perm`). What carries the text is that JSON is put together from
pieces (`TypedMemory.Json.parse_objectText`) and that texts are read back
(`TypedMemory.Json.parse_quoted`). The file is in basic characters, with no line ends but line
feeds, so neither its encoding nor the reading of line ends changes it.

The other members have to be JSON that can be read at all, and there is JSON that cannot: a whole
number with more digits than are ever read refuses the whole file
(`TypedMemory.Options.load_overlong`).
-/

namespace TypedMemory

namespace Options

/-! ### What is loaded -/

/-- Whether an entry is for an option. -/
def isOption (e : Entry Value) : Bool := names.contains e.name

/-- The entries that options are saved as. -/
def savedEntries (o : Options) : List (Entry Value) :=
  [⟨"byteorder", .text (byteOrderName o.byteOrder)⟩,
    ⟨"text_encoding", optionalText o.textEncoding⟩,
    ⟨"wide_text_encoding", optionalText o.wideTextEncoding⟩,
    ⟨"overlap_policy", optionalText (o.overlapPolicy.map OverlapPolicy.name)⟩]

/-- The options with the defaults in place of those that are not kept. -/
def keeping (o : Options) (kept : Text → Bool) : Options where
  byteOrder := if kept "byteorder" then o.byteOrder else ({} : Options).byteOrder
  textEncoding := if kept "text_encoding" then o.textEncoding else ({} : Options).textEncoding
  wideTextEncoding :=
    if kept "wide_text_encoding" then o.wideTextEncoding else ({} : Options).wideTextEncoding
  overlapPolicy := if kept "overlap_policy" then o.overlapPolicy else ({} : Options).overlapPolicy

/-- Only the lookups of the four names count. -/
theorem ofEntries_congr [Host] {entries entries' : List (Entry Value)}
    (h : ∀ name ∈ names, Value.lookup? entries name = Value.lookup? entries' name) :
    ofEntries entries = ofEntries entries' := by
  simp only [names, List.forall_mem_cons] at h
  obtain ⟨horder, hnarrow, hwide, hpolicy, -⟩ := h
  simp only [ofEntries, nameOption, policyOption, horder, hnarrow, hwide, hpolicy]

theorem nodup_savedEntries (o : Options) : (o.savedEntries.map Entry.name).Nodup := by
  have hnames : o.savedEntries.map Entry.name = names := rfl
  rw [hnames]
  decide

section

variable {entries : List (Entry Value)} {kept : Bool}

theorem nameOption_eq [Host] {name : Text} {t : Option Text}
    (h : Value.lookup? entries name = if kept then some (optionalText t) else none)
    (default : Option Text) :
    nameOption entries name default = .ok (if kept then t else default) := by
  rw [nameOption, h]
  cases kept with
  | false => rfl
  | true => cases t <;> rfl

theorem policyOption_eq {policy : Option OverlapPolicy}
    (h : Value.lookup? entries "overlap_policy" =
      if kept then some (optionalText (policy.map OverlapPolicy.name)) else none) :
    policyOption entries = .ok (if kept then policy else some .replace) := by
  rw [policyOption, h]
  cases kept with
  | false => rfl
  | true =>
    cases policy with
    | none => rfl
    | some policy => cases policy <;> rfl

theorem byteOrderOption_eq (order : ByteOrder) :
    byteOrderOption (if kept then some (byteOrderName order) else some "little") =
      .ok (if kept then order else .little) := by
  cases kept <;> cases order <;> rfl

end

/-- What is kept of the saved entries gives what is kept of the options. -/
theorem ofEntries_filter [Host] (o : Options) (kept : Text → Bool) :
    ofEntries (o.savedEntries.filter fun e => kept e.name) = .ok (o.keeping kept) := by
  have hlookup := Value.lookup?_filter kept o.savedEntries
  have horder := nameOption_eq (t := some (byteOrderName o.byteOrder)) (hlookup "byteorder")
  have hnarrow := nameOption_eq (t := o.textEncoding) (hlookup "text_encoding")
  have hwide := nameOption_eq (t := o.wideTextEncoding) (hlookup "wide_text_encoding")
  have hpolicy : policyOption (o.savedEntries.filter fun e => kept e.name) =
      .ok (if kept "overlap_policy" then o.overlapPolicy else some .replace) :=
    policyOption_eq (hlookup "overlap_policy")
  rw [ofEntries, horder, hnarrow, hwide, hpolicy]
  simp only [bind, Except.bind, byteOrderOption_eq]
  rfl

/-- Nothing is noted of options. -/
theorem unknownNotes_names (path : Text) : unknownNotes path names = [] := by
  have hunknown : unknown names = [] := by
    have hfilter : (names.filter fun name => !names.contains name) = [] := by decide
    rw [unknown, hfilter, List.eraseDups_nil, List.mergeSort_nil]
  rw [unknownNotes, hunknown, List.isEmpty_nil, if_pos rfl]

/-- **What is loaded** hangs on the members for options alone. -/
theorem load_objectText [Host] (o : Options) {kept : Text → Bool} {members : List (Text × Text)}
    {entries : List (Entry Value)} (hspells : List.Forall₂ Json.Spells members entries)
    (hperm : (entries.filter isOption).Perm (o.savedEntries.filter fun e => kept e.name))
    (path : Text) :
    (load path (some (Json.objectText members))).2 = .ok (o.keeping kept) := by
  rw [load, Json.parse_objectText hspells]
  have hbound : ∀ name ∈ names, Value.lookup?
      (entries.foldl (fun bound e => Value.bind bound e.name e.value) []) name =
        Value.lookup? (o.savedEntries.filter fun e => kept e.name) name := by
    intro name hname
    have hoption : names.contains name = true := List.contains_iff_mem.mpr hname
    have hnodup : ((o.savedEntries.filter fun e => kept e.name).map Entry.name).Nodup :=
      o.nodup_savedEntries.sublist (List.filter_sublist.map Entry.name)
    have hreverse : (entries.reverse.filter isOption).Perm
        (o.savedEntries.filter fun e => kept e.name) := by
      rw [List.filter_reverse]
      exact (List.reverse_perm _).trans hperm
    -- The last entry with a name counts, so the entries are looked through from behind.
    rw [Value.lookup?_foldl_bind]
    calc (Value.lookup? entries.reverse name).or (Value.lookup? [] name)
        = Value.lookup? entries.reverse name := Option.or_none
      _ = Value.lookup? (entries.reverse.filter isOption) name := by
          exact ((Value.lookup?_filter names.contains entries.reverse name).trans
            (if_pos hoption)).symm
      _ = _ := Value.lookup?_eq_of_perm hreverse hnodup name
  exact (ofEntries_congr hbound).trans (o.ofEntries_filter kept)

/-! ### What is saved -/

/-- The text of an option that may be left open. -/
def optionText : Option Text → Text
  | some t => Json.quoted t
  | none => "null"

/-- The members of the object that options are saved as, each with the blanks around it. -/
def savedMembers (o : Options) : List (Text × Text) :=
  let indent := Json.lineAt 1
  [(indent ++ Json.quoted "byteorder", " " ++ Json.quoted (byteOrderName o.byteOrder)),
    (indent ++ Json.quoted "text_encoding", " " ++ optionText o.textEncoding),
    (indent ++ Json.quoted "wide_text_encoding", " " ++ optionText o.wideTextEncoding),
    (indent ++ Json.quoted "overlap_policy",
      " " ++ (optionText (o.overlapPolicy.map OverlapPolicy.name) ++ "\n"))]

/-- **What is saved** is the text of an object with these members. -/
theorem save_eq (o : Options) : o.save = .ok (Json.objectText o.savedMembers) := by
  have hrender : ∀ (t : Option Text) (level : Nat),
      Json.renderAt .indented (optionalText t) level = .ok (optionText t) := by
    intro t level
    cases t <;> rfl
  have horder : ∀ (level : Nat), Json.renderAt .indented (.text (byteOrderName o.byteOrder)) level =
      .ok (Json.quoted (byteOrderName o.byteOrder)) := fun _ => rfl
  rw [save, Json.render, toRecord, Json.renderAt]
  simp only [Json.renderAt.entriesAt, hrender, horder, bind, Except.bind, pure, Except.pure]
  refine congrArg Except.ok ?_
  simp only [Json.bracketed, List.isEmpty_cons, Json.objectText, savedMembers, Text.join,
    List.map_cons, List.map_nil, Json.memberText, List.intersperse_cons_cons,
    List.intersperse_singleton, List.flatten_cons, List.flatten_nil, Json.Style.indented,
    List.append_assoc, List.cons_append]
  rfl

theorem parse_optionText {t : Option Text} (ht : ∀ s ∈ t, ∀ c ∈ s, c.isSurrogate = false)
    {behind : Text} (hbehind : behind = [] ∨ behind = "\n") :
    Json.parse (" " ++ (optionText t ++ behind)) = .ok (optionalText t) := by
  have hblank : ∀ c ∈ (" " : Text), Json.isBlank c = true := by decide
  cases t with
  | none => rcases hbehind with rfl | rfl <;> rfl
  | some s =>
    refine Json.parse_quoted (ht s rfl) hblank ?_
    rcases hbehind with rfl | rfl <;> decide

/-- **The saved members** spell the options. -/
theorem spells_savedMembers {o : Options}
    (hnarrow : ∀ t ∈ o.textEncoding, ∀ c ∈ t, c.isSurrogate = false)
    (hwide : ∀ t ∈ o.wideTextEncoding, ∀ c ∈ t, c.isSurrogate = false) :
    List.Forall₂ Json.Spells o.savedMembers o.savedEntries := by
  have hblank : ∀ c ∈ Json.lineAt 1, Json.isBlank c = true := by decide
  have hname : ∀ name ∈ names,
      Json.parse (Json.lineAt 1 ++ Json.quoted name) = .ok (.text name) := by
    intro name hname
    have hnames : ∀ name ∈ names, ∀ c ∈ name, c.isSurrogate = false := by decide
    exact Json.parse_quoted_behind (hnames name hname) hblank
  have horder : ∀ t ∈ some (byteOrderName o.byteOrder), ∀ c ∈ t, c.isSurrogate = false := by
    cases o.byteOrder <;> decide
  have hpolicy : ∀ t ∈ o.overlapPolicy.map OverlapPolicy.name, ∀ c ∈ t,
      c.isSurrogate = false := by
    cases o.overlapPolicy with
    | none => nofun
    | some policy => cases policy <;> decide
  have hvalue : ∀ t : Option Text, (∀ s ∈ t, ∀ c ∈ s, c.isSurrogate = false) →
      Json.parse (" " ++ optionText t) = .ok (optionalText t) := by
    intro t ht
    have h := parse_optionText ht (.inl rfl)
    rwa [List.append_nil] at h
  exact .cons ⟨hname _ (by decide), hvalue _ horder⟩
    (.cons ⟨hname _ (by decide), hvalue _ hnarrow⟩
      (.cons ⟨hname _ (by decide), hvalue _ hwide⟩
        (.cons ⟨hname _ (by decide), parse_optionText hpolicy (.inr rfl)⟩ .nil)))

/-! ### The file -/

theorem universalLines_eq {t : Text} (ht : ∀ c ∈ t, c ≠ '\r') : Command.universalLines t = t := by
  induction t with
  | nil => rfl
  | cons c t ih =>
    obtain ⟨hc, ht⟩ := List.forall_mem_cons.mp ht
    rw [Command.universalLines.eq_def]
    simp only [if_neg hc, ih ht]

/-- What comes back from a file as it was written. -/
def IsFileText (t : Text) : Prop := ∀ c ∈ t, c.isSurrogate = false ∧ c ≠ '\r'

theorem IsFileText.append {s t : Text} (hs : IsFileText s) (ht : IsFileText t) :
    IsFileText (s ++ t) :=
  List.forall_mem_append.mpr ⟨hs, ht⟩

theorem IsFileText.exists_bytes {t : Text} (ht : IsFileText t) :
    ∃ bytes, Encoding.utf8.encode t = .ok bytes ∧ Command.fileText bytes = .ok t := by
  obtain ⟨bytes, hbytes⟩ := Encoding.exists_encodePoints_utf8 fun c hc => (ht c hc).1
  refine ⟨bytes, ?_, ?_⟩
  · rw [Encoding.encode_unmarked rfl, hbytes]
  · rw [Command.fileText, Encoding.decode_encodePoints .utf8 hbytes]
    exact congrArg Except.ok (universalLines_eq fun c hc => (ht c hc).2)

theorem isFileText_quoted (t : Text) : IsFileText (Json.quoted t) := by
  have hquote : ∀ c ∈ ("\"" : Text), c.isSurrogate = false ∧ c ≠ '\r' := by decide
  refine (IsFileText.append hquote fun d hd => ?_).append hquote
  obtain ⟨c, -, hd⟩ := List.mem_flatMap.mp hd
  obtain ⟨hlow, hhigh⟩ := Json.val_of_mem_escaped hd
  constructor
  · simp only [CodePoint.isSurrogate, Bool.and_eq_false_iff, decide_eq_false_iff_not]
    omega
  · rintro rfl
    revert hlow
    decide

theorem isFileText_optionText (t : Option Text) : IsFileText (optionText t) := by
  cases t with
  | none => exact (by decide : ∀ c ∈ ("null" : Text), c.isSurrogate = false ∧ c ≠ '\r')
  | some t => exact isFileText_quoted t

theorem isFileText_objectText {ms : List (Text × Text)}
    (h : ∀ m ∈ ms, IsFileText m.1 ∧ IsFileText m.2) : IsFileText (Json.objectText ms) := by
  have hmarks : ∀ c ∈ ([':', ',', '\x7b', '\x7d'] : List CodePoint),
      c.isSurrogate = false ∧ c ≠ '\r' := by decide
  have hjoin : IsFileText (Text.join "," (ms.map Json.memberText)) := by
    induction ms with
    | nil => exact nofun
    | cons m ms ih =>
      obtain ⟨⟨hname, hvalue⟩, hms⟩ := List.forall_mem_cons.mp h
      have hmember : IsFileText (Json.memberText m) :=
        hname.append (List.forall_mem_cons.mpr ⟨hmarks _ (by decide), hvalue⟩)
      cases ms with
      | nil => exact hmember.append nofun
      | cons m' ms =>
        exact hmember.append (List.forall_mem_cons.mpr ⟨hmarks _ (by decide), ih hms⟩)
  refine List.forall_mem_cons.mpr ⟨hmarks _ (by decide), hjoin.append ?_⟩
  exact List.forall_mem_singleton.mpr (hmarks _ (by decide))

/-- **The saved file** is read as it was written. -/
theorem isFileText_saved (o : Options) : IsFileText (Json.objectText o.savedMembers) := by
  have hindent : ∀ c ∈ Json.lineAt 1, c.isSurrogate = false ∧ c ≠ '\r' := by decide
  have hspace : ∀ c ∈ (" " : Text), c.isSurrogate = false ∧ c ≠ '\r' := by decide
  have hfeed : ∀ c ∈ ("\n" : Text), c.isSurrogate = false ∧ c ≠ '\r' := by decide
  have hname : ∀ name, IsFileText (Json.lineAt 1 ++ Json.quoted name) :=
    fun name => IsFileText.append hindent (isFileText_quoted name)
  have hvalue : ∀ t, IsFileText (" " ++ optionText t) :=
    fun t => IsFileText.append hspace (isFileText_optionText t)
  refine isFileText_objectText ?_
  simp only [savedMembers, List.forall_mem_cons]
  exact ⟨⟨hname _, hvalue (some _)⟩, ⟨hname _, hvalue _⟩, ⟨hname _, hvalue _⟩,
    ⟨hname _, IsFileText.append hspace ((isFileText_optionText _).append hfeed)⟩, nofun⟩

/-! ### There and back -/

/-- **What is saved** is loaded as the same options, and nothing is noted of it. -/
theorem load_saved [Host] {o : Options}
    (hnarrow : ∀ t ∈ o.textEncoding, ∀ c ∈ t, c.isSurrogate = false)
    (hwide : ∀ t ∈ o.wideTextEncoding, ∀ c ∈ t, c.isSurrogate = false) (path : Text) :
    load path (some (Json.objectText o.savedMembers)) = ([], .ok o) := by
  have hspells := spells_savedMembers hnarrow hwide
  have hload : (load path (some (Json.objectText o.savedMembers))).2 =
      .ok (o.keeping fun _ => true) := load_objectText o hspells (by rfl) path
  refine Prod.ext ?_ hload
  rw [load, Json.parse_objectText hspells, Value.ofEntries_of_nodup o.nodup_savedEntries]
  exact unknownNotes_names path

/-- **Options survive the disk.** What options are saved as is the text of an object, which a file
gives back as it was written and which is loaded as the same options without a note. And any
object that has what is kept of these members, among others that are no options, is loaded as
what is kept of the options: in any order, and however its members are spelled. -/
theorem load_save [Host] {o : Options}
    (hnarrow : ∀ t ∈ o.textEncoding, ∀ c ∈ t, c.isSurrogate = false)
    (hwide : ∀ t ∈ o.wideTextEncoding, ∀ c ∈ t, c.isSurrogate = false) (path : Text) :
    ∃ saved : List (Text × Text),
      o.save = .ok (Json.objectText saved) ∧
      List.Forall₂ Json.Spells saved o.savedEntries ∧
      (∃ bytes, Encoding.utf8.encode (Json.objectText saved) = .ok bytes ∧
        Command.fileText bytes = .ok (Json.objectText saved)) ∧
      load path (some (Json.objectText saved)) = ([], .ok o) ∧
      ∀ (kept : Text → Bool) (members : List (Text × Text)) (entries : List (Entry Value)),
        List.Forall₂ Json.Spells members entries →
        (entries.filter isOption).Perm (o.savedEntries.filter fun e => kept e.name) →
        (load path (some (Json.objectText members))).2 = .ok (o.keeping kept) := by
  exact ⟨o.savedMembers, o.save_eq, spells_savedMembers hnarrow hwide,
    o.isFileText_saved.exists_bytes, load_saved hnarrow hwide path,
    fun kept members entries hmembers hperm => load_objectText o hmembers hperm path⟩

/-- An encoding named by a quote, a line end and a code point that is a pair of units, alone in
an object with a member that is no option. -/
theorem load_save_pair :
    let name : Text := "\"\n😀"
    let o : Options := ⟨.big, some name, some "utf-16-le", some .reject⟩
    (∃ saved : List (Text × Text), o.save = .ok (Json.objectText saved) ∧
      load "options.json" (some (Json.objectText saved)) = ([], .ok o)) ∧
    (load "options.json"
      (some "\x7b \"x\":[1], \"text_encoding\": \"\\\"\\n\\ud83d\\ude00\"\x7d")).2 =
        .ok { textEncoding := some name } := by
  intro name o
  have hnarrow : ∀ t ∈ o.textEncoding, ∀ c ∈ t, c.isSurrogate = false := by
    rintro _ ⟨⟩
    decide
  have hwide : ∀ t ∈ o.wideTextEncoding, ∀ c ∈ t, c.isSurrogate = false := by
    rintro _ ⟨⟩
    decide
  obtain ⟨saved, hsave, -, -, hload, hmembers⟩ := load_save hnarrow hwide "options.json"
  have hsurrogate : ∀ t ∈ [("x" : Text), "text_encoding", name], ∀ c ∈ t,
      c.isSurrogate = false := by decide
  have hquoted : ∀ t ∈ [("x" : Text), "text_encoding", name],
      Json.parse (" " ++ Json.quoted t) = .ok (.text t) :=
    fun t ht => Json.parse_quoted_behind (hsurrogate t ht) (by decide)
  have htext : ("\x7b \"x\":[1], \"text_encoding\": \"\\\"\\n\\ud83d\\ude00\"\x7d" : Text) =
      Json.objectText [(" " ++ Json.quoted "x", "[1]"),
        (" " ++ Json.quoted "text_encoding", " " ++ Json.quoted name)] := by decide +kernel
  refine ⟨⟨saved, hsave, hload⟩, ?_⟩
  rw [htext]
  exact hmembers (fun option => option = "text_encoding") _
    [⟨"x", .array [.int 1]⟩, ⟨"text_encoding", .text name⟩]
    (.cons ⟨hquoted _ (by decide), by rfl⟩
      (.cons ⟨hquoted _ (by decide), hquoted _ (by decide)⟩ .nil)) (by rfl)

/-- A whole number with one digit more than are ever read. -/
def overlong : Text := ('1' : CodePoint) :: List.replicate Numeral.digitLimit '0'

theorem number_overlong : Json.number false overlong = .error .longNumeral := by
  have hdigit : ∀ c ∈ overlong, c.isDigit = true := by
    refine List.forall_mem_cons.mpr ⟨by decide, fun c hc => ?_⟩
    rw [List.eq_of_mem_replicate hc]
    decide
  have hlong : ¬overlong.length ≤ Numeral.digitLimit := by
    rw [overlong, List.length_cons, List.length_replicate]
    exact Nat.not_succ_le_self _
  have hzero : overlong.head? ≠ some ('0' : CodePoint) := fun h =>
    absurd (Option.some.inj h) (by decide)
  rw [Json.number_of_digits false hdigit (List.cons_ne_nil _ _) hzero, if_neg hlong]

/-- Such a number cannot be read as a member, whatever follows it there. -/
theorem value_overlong (bound : Nat) {e : CodePoint} (he : e ∈ Json.follows) (more : Text) :
    Json.value (bound + 1) (Json.skipBlanks (overlong ++ e :: more)) = .error .longNumeral := by
  have hskip : Json.skipBlanks (overlong ++ e :: more) = overlong ++ e :: more :=
    List.dropWhile_cons_of_neg (by decide)
  have hcons : overlong ++ e :: more =
      ('1' : CodePoint) :: (List.replicate Numeral.digitLimit ('0' : CodePoint) ++ e :: more) :=
    rfl
  have hword : ∀ t, Json.word? (('1' : CodePoint) :: t) = none := fun _ => rfl
  rw [hskip, hcons, Json.value, if_neg (by decide), if_neg (by decide), if_neg (by decide),
    hword]
  dsimp only
  rw [if_neg (by decide), ← hcons, Json.number_append he, number_overlong]
  rfl

/-- **A member that is no option** can refuse a whole file: one that is a number with too many
digits, beside all that options are saved as. -/
theorem load_overlong :
    ∃ saved : List (Text × Text),
      ({} : Options).save = .ok (Json.objectText saved) ∧
      load "options.json" (some (Json.objectText saved)) = ([], .ok {}) ∧
      Json.parse "\"x\"" = .ok (.text "x") ∧ ("x" : Text) ∉ names ∧
      load "options.json" (some (Json.objectText (("\"x\"", overlong) :: saved))) =
        ([], .error (.failure .longNumeral)) := by
  have hname : Json.parse "\"x\"" = .ok (.text "x") := by rfl
  have hnarrow : ∀ t ∈ ({} : Options).textEncoding, ∀ c ∈ t, c.isSurrogate = false := by
    rintro _ ⟨⟩
    decide
  have hwide : ∀ t ∈ ({} : Options).wideTextEncoding, ∀ c ∈ t, c.isSurrogate = false := by
    rintro _ ⟨⟩
    decide
  have hparse : Json.parse (Json.objectText (("\"x\"", overlong) :: savedMembers {})) =
      .error .longNumeral :=
    Json.parse_objectText_of_error (m := ("\"x\"", overlong)) hname
      fun bound e he => value_overlong bound he
  refine ⟨savedMembers {}, save_eq {}, load_saved hnarrow hwide _, hname, by decide, ?_⟩
  rw [load, hparse]

end Options

end TypedMemory
