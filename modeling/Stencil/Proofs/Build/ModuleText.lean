/-
Texts of modules.

The text that is written for a record is read as a definition that says the same: the identifier
of the module, its plugin, its dependencies in order and the source.  Of the options the switch is
kept, and the others are read as some values or other, because a double may be read as another one.
Options whose numbers are integers are read as they were, unless they are nested so deeply that the
text is not read at all.
-/
import Mathlib
import Stencil.Build.Definition
import Stencil.Build.ModuleText
import Stencil.Proofs.Build.ModuleId
import Stencil.Proofs.Json.Value

namespace Stencil

open Json (Document Decoder)
open Json.Document (Reads ReadsItems ReadsMembers Blank keyed)

/-- Options that can be written and read again: numbers are in range, values are not nested too
deeply, and no option has the name of the switch. -/
structure Options.Writable (o : Options) : Prop where
  valid : Json.MembersValid o.extra
  height : Json.membersHeight o.extra + 2 ≤ Json.nestingLimit
  named : ∀ member ∈ o.extra, member.1 ≠ "autoescape"

/-- Options that are settled by their text: numbers are integers in range, the members of objects
stand in order, and no option has the name of the switch. -/
structure Options.Exact (o : Options) : Prop where
  ascending : Dict.Ascending o.extra
  exact : Json.MembersExact o.extra
  named : ∀ member ∈ o.extra, member.1 ≠ "autoescape"

theorem fields_cons {σ : Type} {read : Decoder.FieldReader σ} {depth : Nat} {s s' : σ}
    {key : String} {doc : Document} (h : read .text depth s key doc = some (.ok s'))
    (docs : List (Except Json.Fault String × Document)) :
    Decoder.fields read .text depth s ((.ok key, doc) :: docs) =
      Decoder.fields read .text depth s' docs := by
  rw [Decoder.fields]
  simp only [h]
  rfl

theorem toList_quoted (s : String) :
    (ModuleText.quoted s).toList = Json.stringText s.toList := by
  rw [ModuleText.quoted, Json.compact, String.toList_ofList, Json.compactChars]

/-- What stands in front of a field. -/
def indent : List Char := ['\n', ' ', ' ']

/-- What stands in front of a dependency. -/
def deepIndent : List Char := ['\n', ' ', ' ', ' ', ' ']

theorem blank_indent : Blank indent := by
  simp [Blank, indent, Document.isSpace]

theorem blank_deepIndent : Blank deepIndent := by
  simp [Blank, deepIndent, Document.isSpace]

theorem blank_space : Blank [' '] := by
  rintro c hc
  rw [List.mem_singleton.mp hc]
  rfl

theorem ends_of_cons {c : Char} {cs : List Char}
    (h : c.isDigit = false ∧ c ≠ '.' ∧ c ≠ 'e' ∧ c ≠ 'E') (rest : List Char) :
    Json.Ends (c :: cs ++ rest) := by
  rintro d ⟨⟩
  exact h

/-! ## Options -/

namespace Options

open Json (MemberTakes)

/-- Options other than the switch leave the switch as it is. -/
theorem fields_readField {members : List (String × Json)}
    {docs : List (Except Json.Fault String × Document)}
    (h : List.Forall₂ MemberTakes members docs)
    (hheight : Json.membersHeight members + 2 ≤ Json.nestingLimit)
    (hnamed : ∀ member ∈ members, member.1 ≠ "autoescape") (s : Fields) :
    ∃ s', Decoder.fields readField .text 2 s docs = .ok s' ∧ s'.autoescape = s.autoescape := by
  induction h generalizing s with
  | nil => exact ⟨s, rfl, rfl⟩
  | @cons member doc members docs hdoc _ ih =>
      obtain ⟨key, doc⟩ := doc
      obtain ⟨rfl, htakes⟩ := hdoc
      rw [Json.membersHeight] at hheight
      obtain ⟨value, hvalue⟩ := htakes 2 (by omega)
      obtain ⟨s', hs', hswitch⟩ := ih (by omega)
        (fun m hm => hnamed m (List.mem_cons_of_mem _ hm))
        { s with extra := s.extra.insert member.1 value }
      refine ⟨s', ?_, hswitch⟩
      rw [Decoder.fields, readField, if_neg (hnamed member List.mem_cons_self)]
      simp only [hvalue]
      exact hs'

/-- Exact options are read as they are, on top of those read before, unless they are nested too
deeply. -/
theorem fields_ofMembers {members : List (String × Json)} (h : Json.MembersExact members)
    (hnamed : ∀ member ∈ members, member.1 ≠ "autoescape") (s : Fields) :
    Decoder.fields readField .text 2 s (Document.ofMembers members) =
      if 2 + Json.membersHeight members ≤ Json.nestingLimit then
        .ok { s with extra := Dict.override s.extra members }
      else .error (.fault .tooDeep) := by
  induction members generalizing s with
  | nil => rfl
  | cons member members ih =>
      obtain ⟨key, value⟩ := member
      have hkey : key ≠ "autoescape" := hnamed _ List.mem_cons_self
      rw [Document.ofMembers, Decoder.fields, readField, if_neg hkey,
        Json.any_ofJson h.1 2 (by decide), Json.membersHeight]
      by_cases hvalue : 2 + value.height ≤ Json.nestingLimit
      · have hmembers := ih h.2 (fun m hm => hnamed m (List.mem_cons_of_mem _ hm))
          { s with extra := s.extra.insert key value }
        rw [if_pos hvalue]
        show Decoder.fields readField .text 2 { s with extra := s.extra.insert key value } _ = _
        rw [hmembers]
        by_cases hdeep : 2 + Json.membersHeight members ≤ Json.nestingLimit
        · rw [if_pos hdeep, if_pos (by omega)]
          rfl
        · rw [if_neg hdeep, if_neg (by omega)]
      · rw [if_neg hvalue, if_neg (by omega)]
        rfl

/-- The document that the options of a record are read as. -/
def document (o : Options) (extra : List (Except Json.Fault String × Document)) : Document :=
  .object ((.ok "autoescape", .bool o.autoescape) :: extra) none

/-- The options of a record are read as a document. -/
theorem exists_reads_members {o : Options} (h : Json.MembersValid o.extra) :
    ∃ extra, Reads (Json.compactChars (.object o.members)) (o.document extra) ∧
      List.Forall₂ MemberTakes o.extra extra ∧
      (Json.MembersExact o.extra → extra = Document.ofMembers o.extra) := by
  obtain ⟨extra, hextra, htakes, hexact⟩ := Json.exists_reads_moreMembers o.extra h
  refine ⟨extra, ?_, htakes, hexact⟩
  have hmembers : ReadsMembers true
      ([] ++ (keyed "autoescape" (Json.boolText o.autoescape) ++ Json.moreMembers o.extra))
      ((.ok "autoescape", .bool o.autoescape) :: extra) :=
    Document.ReadsMembers.member (Document.reads_bool _) hextra (Json.ends_moreMembers _)
      Json.blank_nil
  have htext : Json.compactMembers o.members =
      [] ++ (keyed "autoescape" (Json.boolText o.autoescape) ++ Json.moreMembers o.extra) := by
    simp [members, Json.compactMembers, Json.compactChars, Json.moreMembers, keyed]
  rw [Json.compactChars, htext]
  exact Document.Reads.object hmembers

/-- Of the document of options the switch comes first. -/
theorem decode_document (o : Options) (extra : List (Except Json.Fault String × Document)) :
    decode .text 1 (o.document extra) =
      (Decoder.fields readField .text 2 { autoescape := some o.autoescape } extra).map fun s =>
        ⟨s.autoescape.getD false, s.extra⟩ := by
  have hfirst : readField .text 2 {} "autoescape" (.bool o.autoescape) =
      some (.ok { autoescape := some o.autoescape }) := rfl
  rw [document, decode, Json.enter_of_lt (by decide)]
  show (Decoder.fields readField .text 2 {} _ >>= _) = _
  rw [fields_cons hfirst]
  cases Decoder.fields readField .text 2 { autoescape := some o.autoescape } extra <;> rfl

/-- The options of a record are read with the same switch. -/
theorem Writable.exists_decode {o : Options} (h : o.Writable) :
    ∃ doc, Reads (Json.compactChars (.object o.members)) doc ∧
      ∃ o', decode .text 1 doc = .ok o' ∧ o'.autoescape = o.autoescape := by
  obtain ⟨extra, hreads, htakes, -⟩ := exists_reads_members h.valid
  obtain ⟨s, hs, hswitch⟩ := fields_readField htakes h.height h.named
    { autoescape := some o.autoescape }
  refine ⟨_, hreads, ⟨s.autoescape.getD false, s.extra⟩, ?_, by rw [hswitch]; rfl⟩
  rw [decode_document, hs]
  rfl

/-- Exact options are read as they are, unless they are nested too deeply. -/
theorem Exact.exists_decode {o : Options} (h : o.Exact) :
    ∃ doc, Reads (Json.compactChars (.object o.members)) doc ∧
      decode .text 1 doc =
        if (Json.object o.members).height < Json.nestingLimit then .ok o
        else .error (.fault .tooDeep) := by
  obtain ⟨extra, hreads, -, hexact⟩ := exists_reads_members h.exact.valid
  refine ⟨_, hreads, ?_⟩
  have hheight : (Json.object o.members).height = Json.membersHeight o.extra + 1 := by
    simp [Json.height, members, Json.membersHeight]
  have hextra : Dict.override [] o.extra = o.extra := h.ascending.ofPairs_eq
  rw [decode_document, hexact h.exact, fields_ofMembers h.exact h.named, hheight, hextra]
  by_cases hdeep : 2 + Json.membersHeight o.extra ≤ Json.nestingLimit
  · rw [if_pos hdeep, if_pos (by omega)]
    rfl
  · rw [if_neg hdeep, if_neg (by omega)]
    rfl

end Options

/-! ## Dependencies -/

namespace DependencyEntry

/-- The dependency that is written for a reference. -/
def ofReference (plugin : String) (r : Reference) : DependencyEntry :=
  ⟨r.order, r.name, moduleId plugin r.canonicalId⟩

/-- The document of a dependency. -/
def document (e : DependencyEntry) : Document :=
  .object [(.ok "order", .number (.ok (.int e.order))), (.ok "name", .string (.ok e.name)),
    (.ok "id", .string (.ok e.id))] none

theorem decode_document (e : DependencyEntry) : decode .text 2 e.document = .ok e := by
  have hfields : Decoder.fields readField .text 3 {}
      [(.ok "order", .number (.ok (.int e.order))), (.ok "name", .string (.ok e.name)),
        (.ok "id", .string (.ok e.id))] = .ok ⟨some e.order, some e.name, some e.id⟩ := by
    have horder : readField .text 3 {} "order" (.number (.ok (.int e.order))) =
        some (.ok ⟨some e.order, none, none⟩) := by
      simp [readField, Decoder.once, Decoder.word, Except.map]
    have hname : readField .text 3 ⟨some e.order, none, none⟩ "name" (.string (.ok e.name)) =
        some (.ok ⟨some e.order, some e.name, none⟩) := rfl
    have hid : readField .text 3 ⟨some e.order, some e.name, none⟩ "id" (.string (.ok e.id)) =
        some (.ok ⟨some e.order, some e.name, some e.id⟩) := rfl
    rw [fields_cons horder, fields_cons hname, fields_cons hid, Decoder.fields]
  have henter : Json.enter .text 2 = .ok () := Json.enter_of_lt (by decide)
  simp only [document, decode, henter, hfields]
  rfl

/-- The text of a dependency behind its opening brace. -/
def text (e : DependencyEntry) : List Char :=
  [' '] ++ (keyed "order" (' ' :: Decimal.natDigits e.order) ++
    ([] ++ (',' :: ([' '] ++ (keyed "name" (' ' :: Json.stringText e.name.toList) ++
      ([] ++ (',' :: ([' '] ++ (keyed "id" (' ' :: Json.stringText e.id.toList) ++
        ([' '] ++ ['}']))))))))))

theorem toList_dependency (plugin : String) (r : Reference) :
    (ModuleText.dependency plugin r).toList =
      deepIndent ++ ('{' :: (ofReference plugin r).text) := by
  have horder : "\n    \x7b \"order\": ".toList =
      deepIndent ++ '{' :: ' ' :: (Json.stringText "order".toList ++ [':', ' ']) := rfl
  have hname : ", \"name\": ".toList =
      ',' :: ' ' :: (Json.stringText "name".toList ++ [':', ' ']) := rfl
  have hid : ", \"id\": ".toList = ',' :: ' ' :: (Json.stringText "id".toList ++ [':', ' ']) := rfl
  have hclose : " \x7d".toList = [' ', '}'] := rfl
  unfold ModuleText.dependency natText
  simp only [text, ofReference, String.toList_append, String.toList_ofList, toList_quoted, horder,
    hname, hid, hclose, keyed, List.append_assoc, List.cons_append, List.nil_append]

theorem reads_text {e : DependencyEntry} (h : e.order < Json.wordLimit) :
    Reads ('{' :: e.text) e.document := by
  have horder : Reads (' ' :: Decimal.natDigits e.order) (.number (.ok (.int e.order))) := by
    have hnonneg : ¬ (e.order : Int) < 0 := by omega
    have htext : Json.intText e.order = Decimal.natDigits e.order := by
      rw [Json.intText, if_neg hnonneg, Int.natAbs_natCast]
    rw [← htext]
    rw [Json.wordLimit] at h
    refine (Document.reads_number fun rest => ?_).blank blank_space
    refine Json.scanNumber_intText ?_ ?_
    · rw [Number.leastInt]
      omega
    · rw [Number.natLimit]
      omega
  have hstring (s : String) : Reads (' ' :: Json.stringText s.toList) (.string (.ok s)) :=
    (Document.reads_string s).blank blank_space
  refine Document.Reads.object ?_
  refine Document.ReadsMembers.member horder ?_ (ends_of_cons (by decide)) blank_space
  refine Document.ReadsMembers.next (hstring _) ?_ (ends_of_cons (by decide)) Json.blank_nil
    blank_space
  refine Document.ReadsMembers.next (hstring _) ?_ (ends_of_cons (by decide)) Json.blank_nil
    blank_space
  exact Document.ReadsMembers.close blank_space

/-- The further dependencies, up to the closing bracket. -/
def moreText : List DependencyEntry → List Char
  | [] => indent ++ [']']
  | e :: entries => [] ++ (',' :: (deepIndent ++ ('{' :: e.text ++ moreText entries)))

/-- The dependencies, up to the closing bracket. -/
def itemsText : List DependencyEntry → List Char
  | [] => indent ++ [']']
  | e :: entries => deepIndent ++ ('{' :: e.text ++ moreText entries)

theorem toList_intercalate (plugin : String) (refs : List Reference) :
    (",".intercalate (refs.map (ModuleText.dependency plugin)) ++ "\n  ]").toList =
      itemsText (refs.map (ofReference plugin)) := by
  have hclose : "\n  ]".toList = indent ++ [']'] := rfl
  have hcomma : ",".toList = [','] := rfl
  cases refs with
  | nil =>
      rw [List.map_nil, String.intercalate_nil, String.empty_append, hclose]
      rfl
  | cons r refs =>
      rw [List.map_cons, List.map_cons, itemsText]
      induction refs generalizing r with
      | nil =>
          rw [List.map_nil, String.intercalate_singleton, String.toList_append, toList_dependency,
            hclose, List.append_assoc]
          rfl
      | cons r' refs ih =>
          rw [List.map_cons, List.map_cons, String.intercalate_cons_cons, String.append_assoc,
            String.toList_append, ih r', String.toList_append, toList_dependency, hcomma, moreText,
            List.append_assoc, List.append_assoc]
          rfl

theorem ends_moreText (entries : List DependencyEntry) (rest : List Char) :
    Json.Ends (moreText entries ++ rest) := by
  cases entries <;> rintro c ⟨⟩ <;> decide

theorem reads_moreText {entries : List DependencyEntry}
    (h : ∀ e ∈ entries, e.order < Json.wordLimit) :
    ReadsItems false (moreText entries) (entries.map document) := by
  induction entries with
  | nil => exact Document.ReadsItems.close blank_indent
  | cons e entries ih =>
      exact Document.ReadsItems.next (reads_text (h e List.mem_cons_self)) rfl
        (ih fun e' he' => h e' (List.mem_cons_of_mem _ he')) (ends_moreText entries)
        Json.blank_nil blank_deepIndent

theorem reads_itemsText {entries : List DependencyEntry}
    (h : ∀ e ∈ entries, e.order < Json.wordLimit) :
    Reads ('[' :: itemsText entries) (.array (entries.map document) none) := by
  refine Document.Reads.array ?_
  cases entries with
  | nil => exact Document.ReadsItems.close blank_indent
  | cons e entries =>
      exact Document.ReadsItems.item (reads_text (h e List.mem_cons_self)) rfl
        (reads_moreText fun e' he' => h e' (List.mem_cons_of_mem _ he')) (ends_moreText entries)
        blank_deepIndent

theorem decode_documents (entries : List DependencyEntry) :
    Decoder.list decode .text 1 (.array (entries.map document) none) = .ok entries := by
  have hmap : (entries.map document).mapM (decode .text 2) = .ok entries := by
    induction entries with
    | nil => rfl
    | cons e entries ih =>
        rw [List.map_cons, List.mapM_cons, decode_document, ih]
        rfl
  have henter : Json.enter .text 1 = .ok () := Json.enter_of_lt (by decide)
  simp only [Decoder.list, henter, hmap]
  rfl

end DependencyEntry

/-! ## Definitions -/

namespace ModuleDefinition

/-- The document of a definition whose options are read from a document of their own. -/
def document (d : ModuleDefinition) (options : Document) : Document :=
  .object [(.ok "module", .string (.ok d.id)), (.ok "plugin", .string (.ok d.plugin)),
    (.ok "dependencies", .array (d.dependencies.map DependencyEntry.document) none),
    (.ok "options", options), (.ok "template", .string (.ok d.body))] none

theorem decode_document (d : ModuleDefinition) (options : Document) :
    decode .text 0 (d.document options) =
      (Options.decode .text 1 options).map fun o => { d with options := o } := by
  obtain ⟨id, plugin, entries, -, body⟩ := d
  have hid : readField .text 1 {} "module" (.string (.ok id)) =
      some (.ok ⟨some id, none, none, none, none⟩) := rfl
  have hplugin : readField .text 1 ⟨some id, none, none, none, none⟩ "plugin"
      (.string (.ok plugin)) = some (.ok ⟨some id, some plugin, none, none, none⟩) := rfl
  have hentries : readField .text 1 ⟨some id, some plugin, none, none, none⟩ "dependencies"
      (.array (entries.map DependencyEntry.document) none) =
        some (.ok ⟨some id, some plugin, some entries, none, none⟩) := by
    simp [readField, Decoder.once, DependencyEntry.decode_documents, Except.map]
  have hoptions : readField .text 1 ⟨some id, some plugin, some entries, none, none⟩ "options"
      options = some ((Options.decode .text 1 options).map fun o =>
        ⟨some id, some plugin, some entries, some o, none⟩) := rfl
  have hbody (o : Options) : readField .text 1 ⟨some id, some plugin, some entries, some o, none⟩
      "template" (.string (.ok body)) =
        some (.ok ⟨some id, some plugin, some entries, some o, some body⟩) := rfl
  have henter : Json.enter .text 0 = .ok () := Json.enter_of_lt (by decide)
  rw [document, decode, henter]
  show (Decoder.fields readField .text 1 {} _ >>= _) = _
  rw [fields_cons hid, fields_cons hplugin, fields_cons hentries, Decoder.fields]
  simp only [hoptions]
  cases Options.decode .text 1 options with
  | error m => rfl
  | ok o =>
      show (Decoder.fields readField .text 1 ⟨some id, some plugin, some entries, some o, none⟩ _
        >>= _) = _
      rw [fields_cons (hbody o)]
      rfl

/-- The definition that is written for a record, with options that stand for those of the
record. -/
def ofRecord (plugin : String) (r : BuildRecord) (options : Options) : ModuleDefinition :=
  ⟨moduleId plugin r.templateId, plugin,
    r.partials.map (DependencyEntry.ofReference plugin), options, r.body⟩

/-- The text of a definition behind its opening brace. -/
def text (d : ModuleDefinition) (options : List Char) : List Char :=
  indent ++ (keyed "module" (' ' :: Json.stringText d.id.toList) ++
    ([] ++ (',' :: (indent ++ (keyed "plugin" (' ' :: Json.stringText d.plugin.toList) ++
      ([] ++ (',' :: (indent ++ (keyed "dependencies"
          (' ' :: '[' :: DependencyEntry.itemsText d.dependencies) ++
        ([] ++ (',' :: (indent ++ (keyed "options" (' ' :: options) ++
          ([] ++ (',' :: (indent ++ (keyed "template" (' ' :: Json.stringText d.body.toList) ++
            (['\n'] ++ ['}']))))))))))))))))))

theorem toList_write (plugin : String) (r : BuildRecord) (options : Options) :
    (ModuleText.write plugin r).toList =
      '{' :: ((ofRecord plugin r options).text (Json.compactChars (.object r.options.members)) ++
        ['\n']) := by
  have hmodule : "\x7b\n  \"module\": ".toList =
      '{' :: (indent ++ (Json.stringText "module".toList ++ [':', ' '])) := rfl
  have hplugin : ",\n  \"plugin\": ".toList =
      ',' :: (indent ++ (Json.stringText "plugin".toList ++ [':', ' '])) := rfl
  have hdependencies : ",\n  \"dependencies\": [".toList =
      ',' :: (indent ++ (Json.stringText "dependencies".toList ++ [':', ' ', '['])) := rfl
  have hoptions : "\n  ],\n  \"options\": ".toList =
      "\n  ]".toList ++ ',' :: (indent ++ (Json.stringText "options".toList ++ [':', ' '])) := rfl
  have htemplate : ",\n  \"template\": ".toList =
      ',' :: (indent ++ (Json.stringText "template".toList ++ [':', ' '])) := rfl
  have hclose : "\n\x7d\n".toList = ['\n', '}', '\n'] := rfl
  have hcompact : (Json.object r.options.members).compact.toList =
      Json.compactChars (.object r.options.members) := String.toList_ofList
  have hitems := DependencyEntry.toList_intercalate plugin r.partials
  rw [String.toList_append] at hitems
  unfold ModuleText.write
  simp only [String.toList_append, toList_quoted, hcompact, hmodule, hplugin, hdependencies,
    hoptions, htemplate, hclose, text, ofRecord, keyed, ← hitems, List.append_assoc,
    List.cons_append, List.nil_append]

theorem reads_text {d : ModuleDefinition} {options : List Char} {doc : Document}
    (horder : ∀ e ∈ d.dependencies, e.order < Json.wordLimit) (hoptions : Reads options doc) :
    Reads ('{' :: d.text options) (d.document doc) := by
  have hstring (s : String) : Reads (' ' :: Json.stringText s.toList) (.string (.ok s)) :=
    (Document.reads_string s).blank blank_space
  refine Document.Reads.object ?_
  refine Document.ReadsMembers.member (hstring _) ?_ (ends_of_cons (by decide)) blank_indent
  refine Document.ReadsMembers.next (hstring _) ?_ (ends_of_cons (by decide)) Json.blank_nil
    blank_indent
  refine Document.ReadsMembers.next ((DependencyEntry.reads_itemsText horder).blank blank_space) ?_
    (ends_of_cons (by decide)) Json.blank_nil blank_indent
  refine Document.ReadsMembers.next (hoptions.blank blank_space) ?_ (ends_of_cons (by decide))
    Json.blank_nil blank_indent
  refine Document.ReadsMembers.next (hstring _) ?_ (ends_of_cons (by decide)) Json.blank_nil
    blank_indent
  exact Document.ReadsMembers.close (by simp [Blank, Document.isSpace])

/-- Dependencies that are numbered from a position, with names of their own, have no problem. -/
theorem dependencyProblem?_eq_none {plugin : String} {refs : List Reference} {position : Nat}
    {met : List String}
    (hnumbered : refs.map Reference.order = List.range' position refs.length)
    (hnodup : (refs.map Reference.name).Nodup) (hmet : ∀ r ∈ refs, r.name ∉ met) :
    dependencyProblem? plugin position met (refs.map (DependencyEntry.ofReference plugin)) =
      none := by
  induction refs generalizing position met with
  | nil => rfl
  | cons r refs ih =>
      rw [List.map_cons, List.length_cons, List.range'_succ] at hnumbered
      obtain ⟨horder, hnumbered⟩ := List.cons.inj hnumbered
      rw [List.map_cons, List.nodup_cons] at hnodup
      have hname : r.name ∉ met := hmet r List.mem_cons_self
      rw [List.map_cons, dependencyProblem?]
      simp only [DependencyEntry.ofReference, horder, ne_eq, not_true_eq_false, if_false, hname,
        templateOf?_moduleId, Option.isNone_some, Bool.false_eq_true]
      refine ih hnumbered hnodup.2 fun r' hr' hmem => ?_
      rcases List.mem_cons.mp hmem with heq | hmem
      · exact hnodup.1 (heq ▸ List.mem_map_of_mem hr')
      · exact hmet r' (List.mem_cons_of_mem _ hr') hmem

/-- The text that is written for a record is read as its definition, if its options can be read. -/
theorem ofText_write_of_reads (plugin : String) {r : BuildRecord} (hid : r.templateId ≠ "")
    (hword : ∀ ref ∈ r.partials, ref.order < Json.wordLimit)
    (hnumbered : r.partials.map Reference.order = List.range' 1 r.partials.length)
    (hnodup : (r.partials.map Reference.name).Nodup) {doc : Document}
    (hdoc : Reads (Json.compactChars (.object r.options.members)) doc) :
    ofText (ModuleText.write plugin r) =
      match Options.decode .text 1 doc with
      | .ok options => .ok (ofRecord plugin r options)
      | .error m => .error (.invalidModule unknownId m.message) := by
  have horder : ∀ e ∈ (ofRecord plugin r {}).dependencies, e.order < Json.wordLimit := by
    intro e he
    obtain ⟨ref, href, rfl⟩ := List.mem_map.mp he
    exact hword ref href
  have hdocument : Document.ofText (ModuleText.write plugin r).toList =
      ((ofRecord plugin r {}).document doc, false) := by
    have hends : Json.Ends ['\n'] := by
      rintro c ⟨⟩
      decide
    have hreads := reads_text horder hdoc
    rw [toList_write plugin r {}, Document.ofText, ← List.cons_append,
      hreads _ _ (by simp; omega) hends]
    rfl
  have hread : Decoder.ofText decode (ModuleText.write plugin r) =
      (Options.decode .text 1 doc).map (ofRecord plugin r) := by
    simp only [Decoder.ofText, hdocument]
    rw [decode_document]
    cases Options.decode .text 1 doc <;> rfl
  have hcheck (options : Options) : (ofRecord plugin r options).check = .ok () := by
    have hproblem : (ofRecord plugin r options).problem? = none := by
      rw [problem?, ofRecord, templateOf?_moduleId]
      split
      next h => cases h
      next h => exact absurd (Option.some.inj h) hid
      next => exact dependencyProblem?_eq_none hnumbered hnodup fun _ _ h => nomatch h
    rw [check, hproblem]
  rw [ofText, hread]
  cases Options.decode .text 1 doc with
  | error m => rfl
  | ok options =>
      show (check (ofRecord plugin r options) >>= _) = _
      rw [hcheck]
      rfl

/-- The text that is written for a record with exact options is read as a definition that says what
the record says.  It is read exactly if the options open fewer brackets inside one another than a
text may open: the text puts one more around them. -/
theorem ofText_write (plugin : String) {r : BuildRecord} (hid : r.templateId ≠ "")
    (hnodup : (r.partials.map Reference.name).Nodup)
    (hnumbered : r.partials.map Reference.order = List.range' 1 r.partials.length)
    (hword : ∀ ref ∈ r.partials, ref.order < Json.wordLimit) (hoptions : r.options.Exact) :
    ((Json.object r.options.members).height < Json.nestingLimit →
      ∃ d, ofText (ModuleText.write plugin r) = .ok d ∧ d.id = moduleId plugin r.templateId ∧
        d.templateName = r.templateId ∧ d.plugin = plugin ∧ d.options = r.options ∧
        d.body = r.body ∧ d.dependencies = r.partials.map fun ref =>
          ⟨ref.order, ref.name, moduleId plugin ref.canonicalId⟩) ∧
      (Json.nestingLimit ≤ (Json.object r.options.members).height →
        ofText (ModuleText.write plugin r) =
          .error (.invalidModule unknownId (Json.Mismatch.fault .tooDeep).message)) := by
  obtain ⟨doc, hdoc, hdecode⟩ := hoptions.exists_decode
  have htext := ofText_write_of_reads plugin hid hword hnumbered hnodup hdoc
  constructor
  · intro hheight
    rw [hdecode, if_pos hheight] at htext
    refine ⟨_, htext, rfl, ?_, rfl, rfl, rfl, rfl⟩
    rw [templateName, ofRecord, templateOf?_moduleId]
    rfl
  · intro hheight
    rw [hdecode, if_neg (not_lt.mpr hheight)] at htext
    exact htext

/-- A record whose texts have to be escaped and look like tags, with nested options. -/
def awkwardRecord : BuildRecord where
  templateId := "\x7b\x7b c \x7d\x7d\\"
  body := "\x7b% if \u0001 %\x7d\n\"x\""
  options := ⟨true,
    [("deep", .array [.object [("x", .int (-1))], .null]), ("next", .string "\t\"")]⟩
  partials := [⟨"\"p\"", "../\x7b%", 1⟩, ⟨"q\\", "%\x7d", 2⟩]

theorem ofText_write_awkwardRecord :
    ∃ d, ofText (ModuleText.write "a!\"b" awkwardRecord) = .ok d ∧
      d.id = moduleId "a!\"b" "\x7b\x7b c \x7d\x7d\\" ∧
      d.dependencies = [⟨1, "\"p\"", moduleId "a!\"b" "../\x7b%"⟩,
        ⟨2, "q\\", moduleId "a!\"b" "%\x7d"⟩] := by
  have hoptions : awkwardRecord.options.Exact := by
    refine ⟨by decide, ?_, by decide⟩
    simp [awkwardRecord, Json.MembersExact, Json.ItemsExact, Json.Exact, Dict.Ascending, Dict.keys,
      Number.leastInt, Number.natLimit]
  obtain ⟨hread, -⟩ := ofText_write "a!\"b" (r := awkwardRecord) (by decide) (by decide)
    (by decide) (by decide) hoptions
  obtain ⟨d, hd, hid, -, -, -, -, hdependencies⟩ := hread (by decide)
  exact ⟨d, hd, hid, hdependencies⟩

end ModuleDefinition

end Stencil
