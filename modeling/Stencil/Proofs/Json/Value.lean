/-
Values and their texts.

The compact form of a value is read as a document, and a decoder that takes any value takes that
document unless the value is nested too deeply.  A double may be read as another one, so what the
decoder takes the document as is said for exact values only, whose numbers are integers: it gives
the value back.
-/
import Mathlib
import Stencil.Json.Decoder
import Stencil.Proofs.Dict
import Stencil.Proofs.Json.Document

namespace Stencil

namespace Json

mutual

/-- The number of brackets that a value opens inside one another. -/
def height : Json → Nat
  | .array items => itemsHeight items + 1
  | .object members => membersHeight members + 1
  | _ => 0

/-- The greatest height of the items of an array. -/
def itemsHeight : List Json → Nat
  | [] => 0
  | item :: items => max item.height (itemsHeight items)

/-- The greatest height of the members of an object. -/
def membersHeight : List (String × Json) → Nat
  | [] => 0
  | (_, value) :: members => max value.height (membersHeight members)

end

mutual

/-- Whether all numbers in a value are ones that JSON values hold. -/
def Valid : Json → Prop
  | .number n => n.Valid
  | .array items => ItemsValid items
  | .object members => MembersValid members
  | _ => True

/-- Whether all numbers in the items of an array are valid. -/
def ItemsValid : List Json → Prop
  | [] => True
  | item :: items => item.Valid ∧ ItemsValid items

/-- Whether all numbers in the members of an object are valid. -/
def MembersValid : List (String × Json) → Prop
  | [] => True
  | (_, value) :: members => value.Valid ∧ MembersValid members

end

mutual

/-- Whether a value is settled by its text: its numbers are integers that JSON values hold, and the
members of its objects stand in order. -/
def Exact : Json → Prop
  | .number (.int n) => Number.leastInt ≤ n ∧ n < Number.natLimit
  | .number (.float _) => False
  | .array items => ItemsExact items
  | .object members => Dict.Ascending members ∧ MembersExact members
  | _ => True

/-- Whether all items of an array are exact. -/
def ItemsExact : List Json → Prop
  | [] => True
  | item :: items => item.Exact ∧ ItemsExact items

/-- Whether all members of an object are exact. -/
def MembersExact : List (String × Json) → Prop
  | [] => True
  | (_, value) :: members => value.Exact ∧ MembersExact members

end

mutual

theorem Exact.valid : {value : Json} → value.Exact → value.Valid
  | .null, _ => trivial
  | .bool _, _ => trivial
  | .number (.int _), h => h
  | .string _, _ => trivial
  | .array _, h => ItemsExact.valid h
  | .object _, h => MembersExact.valid h.2

theorem ItemsExact.valid : {items : List Json} → ItemsExact items → ItemsValid items
  | [], _ => trivial
  | _ :: _, h => ⟨h.1.valid, ItemsExact.valid h.2⟩

theorem MembersExact.valid : {members : List (String × Json)} → MembersExact members →
    MembersValid members
  | [], _ => trivial
  | (_, _) :: _, h => ⟨h.1.valid, MembersExact.valid h.2⟩

end

/-! ## Decoding -/

/-- A document that any decoder of values takes inside `height` brackets less than the limit. -/
def Takes (doc : Document) (height : Nat) : Prop :=
  ∀ depth, depth + height ≤ nestingLimit → ∃ value, Decoder.any .text depth doc = .ok value

theorem enter_of_lt {depth : Nat} (h : depth < nestingLimit) : enter .text depth = .ok () :=
  if_neg fun hlimit => absurd hlimit.2 (by omega)

open Document (Reads ReadsItems ReadsMembers)

/-- What a list of items that was read is taken as. -/
def TakesItems (docs : List Document) (height : Nat) : Prop :=
  ∀ depth, depth + height ≤ nestingLimit →
    ∃ values, Decoder.anyItems .text depth docs = .ok values

/-- What members that were read are taken as, on top of others. -/
def TakesMembers (docs : List (Except Fault String × Document)) (height : Nat) : Prop :=
  ∀ depth read, depth + height ≤ nestingLimit →
    ∃ values, Decoder.anyMembers .text depth read docs = .ok values

mutual

/-- The document of an exact value is taken as the value, unless it is nested too deeply. -/
theorem any_ofJson : {value : Json} → value.Exact → ∀ depth ≤ nestingLimit,
    Decoder.any .text depth (.ofJson value) =
      if depth + value.height ≤ nestingLimit then .ok value else .error (.fault .tooDeep)
  | .null, _, _, hdepth => (if_pos hdepth).symm
  | .bool _, _, _, hdepth => (if_pos hdepth).symm
  | .number (.int _), _, _, hdepth => (if_pos hdepth).symm
  | .string _, _, _, hdepth => (if_pos hdepth).symm
  | .array items, h, depth, hdepth => by
      rw [Document.ofJson, Decoder.any, height]
      rcases Nat.lt_or_eq_of_le hdepth with hlt | rfl
      · have hitems := anyItems_ofItems (show ItemsExact items from h) (depth + 1) hlt
        rw [enter_of_lt hlt]
        show (Decoder.anyItems .text (depth + 1) _ >>= _) = _
        rw [hitems, ← Nat.add_assoc, Nat.add_right_comm]
        split <;> rfl
      · rw [if_neg (by omega)]
        rfl
  | .object members, h, depth, hdepth => by
      rw [Document.ofJson, Decoder.any, height]
      rcases Nat.lt_or_eq_of_le hdepth with hlt | rfl
      · have hmembers := anyMembers_ofMembers h.2 (depth + 1) hlt []
        have hread : Dict.override [] members = members := h.1.ofPairs_eq
        rw [enter_of_lt hlt]
        show (Decoder.anyMembers .text (depth + 1) [] _ >>= _) = _
        rw [hmembers, hread, ← Nat.add_assoc, Nat.add_right_comm]
        split <;> rfl
      · rw [if_neg (by omega)]
        rfl

/-- The documents of exact items are taken as the items. -/
theorem anyItems_ofItems : {items : List Json} → ItemsExact items → ∀ depth ≤ nestingLimit,
    Decoder.anyItems .text depth (Document.ofItems items) =
      if depth + itemsHeight items ≤ nestingLimit then .ok items else .error (.fault .tooDeep)
  | [], _, _, hdepth => (if_pos hdepth).symm
  | item :: items, h, depth, hdepth => by
      rw [Document.ofItems, Decoder.anyItems, any_ofJson h.1 depth hdepth,
        anyItems_ofItems h.2 depth hdepth, itemsHeight]
      by_cases hitem : depth + item.height ≤ nestingLimit
      · rw [if_pos hitem]
        by_cases hitems : depth + itemsHeight items ≤ nestingLimit
        · rw [if_pos hitems, if_pos (by omega)]
          rfl
        · rw [if_neg hitems, if_neg (by omega)]
          rfl
      · have hdeep : ¬ depth + max item.height (itemsHeight items) ≤ nestingLimit := by omega
        rw [if_neg hitem, if_neg hdeep]
        rfl

/-- The documents of exact members are taken as the members, on top of those read before. -/
theorem anyMembers_ofMembers : {members : List (String × Json)} → MembersExact members →
    ∀ depth ≤ nestingLimit, ∀ read : Dict Json,
    Decoder.anyMembers .text depth read (Document.ofMembers members) =
      if depth + membersHeight members ≤ nestingLimit then .ok (Dict.override read members)
      else .error (.fault .tooDeep)
  | [], _, _, hdepth, _ => (if_pos hdepth).symm
  | (key, value) :: members, h, depth, hdepth, read => by
      rw [Document.ofMembers, Decoder.anyMembers, any_ofJson h.1 depth hdepth, membersHeight]
      by_cases hvalue : depth + value.height ≤ nestingLimit
      · have hmembers := anyMembers_ofMembers h.2 depth hdepth (read.insert key value)
        rw [if_pos hvalue]
        show Decoder.anyMembers .text depth (read.insert key value) _ = _
        rw [hmembers]
        by_cases hdeep : depth + membersHeight members ≤ nestingLimit
        · rw [if_pos hdeep, if_pos (by omega)]
          rfl
        · rw [if_neg hdeep, if_neg (by omega)]
      · rw [if_neg hvalue, if_neg (by omega)]
        rfl

end

theorem takes_number (n : Number) (height : Nat) : Takes (.number (.ok n)) height := by
  intro depth _
  cases n with
  | int n => exact ⟨_, rfl⟩
  | float x => exact ⟨_, rfl⟩

theorem TakesItems.array {docs : List Document} {height : Nat} (h : TakesItems docs height) :
    Takes (.array docs none) (height + 1) := by
  intro depth hdepth
  obtain ⟨values, hvalues⟩ := h (depth + 1) (by omega)
  refine ⟨.array values, ?_⟩
  rw [Decoder.any, enter_of_lt (by omega), hvalues]
  rfl

theorem TakesItems.cons {doc : Document} {docs : List Document} {m n : Nat} (h : Takes doc m)
    (hdocs : TakesItems docs n) : TakesItems (doc :: docs) (max m n) := by
  intro depth hdepth
  obtain ⟨value, hvalue⟩ := h depth (by omega)
  obtain ⟨values, hvalues⟩ := hdocs depth (by omega)
  refine ⟨value :: values, ?_⟩
  rw [Decoder.anyItems, hvalue]
  simp only [hvalues]
  rfl

theorem TakesMembers.object {docs : List (Except Fault String × Document)} {height : Nat}
    (h : TakesMembers docs height) : Takes (.object docs none) (height + 1) := by
  intro depth hdepth
  obtain ⟨values, hvalues⟩ := h (depth + 1) [] (by omega)
  refine ⟨.object values, ?_⟩
  rw [Decoder.any, enter_of_lt (by omega)]
  simp only [hvalues]
  rfl

/-- A member that was read: its key, and a document that is taken as its value. -/
def MemberTakes (member : String × Json) (doc : Except Fault String × Document) : Prop :=
  doc.1 = .ok member.1 ∧ Takes doc.2 member.2.height

theorem takesMembers_of_forall₂ {members : List (String × Json)}
    {docs : List (Except Fault String × Document)} (h : List.Forall₂ MemberTakes members docs) :
    TakesMembers docs (membersHeight members) := by
  induction h with
  | nil => exact fun _ read _ => ⟨read, rfl⟩
  | @cons member doc members docs hdoc _ ih =>
      intro depth read hdepth
      obtain ⟨key, doc⟩ := doc
      obtain ⟨rfl, htakes⟩ := hdoc
      rw [membersHeight] at hdepth
      obtain ⟨value, hvalue⟩ := htakes depth (by omega)
      obtain ⟨values, hvalues⟩ := ih depth (read.insert member.1 value) (by omega)
      refine ⟨values, ?_⟩
      rw [Decoder.anyMembers]
      simp only [hvalue]
      exact hvalues

/-! ## The compact form -/

/-- What stands behind an item in compact form. -/
def moreItems (items : List Json) : List Char :=
  (if items.isEmpty then [] else [',']) ++ compactItems items

/-- What stands behind a member in compact form. -/
def moreMembers (members : List (String × Json)) : List Char :=
  (if members.isEmpty then [] else [',']) ++ compactMembers members

theorem ends_moreItems (items : List Json) (rest : List Char) : Ends (moreItems items ++ rest) := by
  cases items <;> rintro c ⟨⟩ <;> decide

theorem ends_moreMembers (members : List (String × Json)) (rest : List Char) :
    Ends (moreMembers members ++ rest) := by
  cases members <;> rintro c ⟨⟩ <;> decide

/-- The compact form of a value starts with the value. -/
theorem compactChars_head {value : Json} (h : value.Valid) :
    ∃ c cs, compactChars value = c :: cs ∧ Document.isSpace c = false := by
  cases value with
  | null => exact ⟨_, _, rfl, rfl⟩
  | bool b => cases b <;> exact ⟨_, _, rfl, rfl⟩
  | number n =>
      obtain ⟨m, hm⟩ := scanNumber_numberText h
      obtain ⟨c, cs, hcs, hc⟩ := exists_of_scanNumber (hm [] (by rintro c ⟨⟩))
      rw [List.append_nil] at hcs
      exact ⟨c, cs, hcs, Document.isSpace_of_number hc⟩
  | string s => exact ⟨_, _, rfl, rfl⟩
  | array items => exact ⟨_, _, rfl, rfl⟩
  | object members => exact ⟨_, _, rfl, rfl⟩

theorem blank_nil : Document.Blank [] := by
  rintro c ⟨⟩

mutual

/-- The compact form of a value is read as a document that is taken as a value.  It is the document
of the value if that is exact. -/
theorem exists_reads_compactChars : (value : Json) → value.Valid →
    ∃ doc, Reads (compactChars value) doc ∧ Takes doc value.height ∧
      (value.Exact → doc = .ofJson value)
  | .null, _ => ⟨.null, Document.reads_null, fun _ _ => ⟨_, rfl⟩, fun _ => rfl⟩
  | .bool b, _ => ⟨.bool b, Document.reads_bool b, fun _ _ => ⟨_, rfl⟩, fun _ => rfl⟩
  | .number (.int n), h =>
      ⟨.number (.ok (.int n)), Document.reads_number fun _ => scanNumber_intText h.1 h.2,
        takes_number (.int n) _, fun _ => rfl⟩
  | .number (.float x), h => by
      obtain ⟨m, hm⟩ := scanNumber_floatText h
      exact ⟨_, Document.reads_number hm, takes_number m _, False.elim⟩
  | .string s, _ =>
      ⟨.string (.ok s), Document.reads_string s, fun _ _ => ⟨_, rfl⟩, fun _ => rfl⟩
  | .array [], _ =>
      ⟨_, Document.Reads.array (Document.ReadsItems.close blank_nil),
        TakesItems.array fun _ _ => ⟨[], rfl⟩, fun _ => rfl⟩
  | .array (item :: items), h => by
      obtain ⟨doc, hdoc, htakes, hexact⟩ := exists_reads_compactChars item h.1
      obtain ⟨docs, hdocs, htakes', hexact'⟩ := exists_reads_moreItems items h.2
      obtain ⟨c, cs, hcs, hc⟩ := compactChars_head h.1
      rw [hcs] at hdoc
      have hitems := Document.ReadsItems.item hdoc hc hdocs (ends_moreItems items) blank_nil
      rw [← hcs] at hitems
      refine ⟨.array (doc :: docs) none, ?_, (TakesItems.cons htakes htakes').array, fun he => ?_⟩
      · have htext : compactItems (item :: items) =
            [] ++ (compactChars item ++ moreItems items) := by
          rw [compactItems, moreItems, List.nil_append, List.append_assoc]
        rw [compactChars, htext]
        exact Document.Reads.array hitems
      · rw [hexact he.1, hexact' he.2]
        rfl
  | .object [], _ =>
      ⟨_, Document.Reads.object (Document.ReadsMembers.close blank_nil),
        TakesMembers.object fun _ read _ => ⟨read, rfl⟩, fun _ => rfl⟩
  | .object ((key, value) :: members), h => by
      obtain ⟨doc, hdoc, htakes, hexact⟩ := exists_reads_compactChars value h.1
      obtain ⟨docs, hdocs, htakes', hexact'⟩ := exists_reads_moreMembers members h.2
      have hmembers : ReadsMembers true
          ([] ++ (Document.keyed key (compactChars value) ++ moreMembers members))
          ((.ok key, doc) :: docs) :=
        Document.ReadsMembers.member hdoc hdocs (ends_moreMembers members) blank_nil
      refine ⟨.object ((.ok key, doc) :: docs) none, ?_,
        (takesMembers_of_forall₂ (.cons ⟨rfl, htakes⟩ htakes')).object, fun he => ?_⟩
      · have htext : compactMembers ((key, value) :: members) =
            [] ++ (Document.keyed key (compactChars value) ++ moreMembers members) := by
          simp [compactMembers, moreMembers, Document.keyed]
        rw [compactChars, htext]
        exact Document.Reads.object hmembers
      · rw [hexact he.2.1, hexact' he.2.2]
        rfl

/-- What stands behind an item is read as the further items. -/
theorem exists_reads_moreItems : (items : List Json) → ItemsValid items →
    ∃ docs, ReadsItems false (moreItems items) docs ∧ TakesItems docs (itemsHeight items) ∧
      (ItemsExact items → docs = Document.ofItems items)
  | [], _ =>
      ⟨[], Document.ReadsItems.close blank_nil, fun _ _ => ⟨[], rfl⟩, fun _ => rfl⟩
  | item :: items, h => by
      obtain ⟨doc, hdoc, htakes, hexact⟩ := exists_reads_compactChars item h.1
      obtain ⟨docs, hdocs, htakes', hexact'⟩ := exists_reads_moreItems items h.2
      obtain ⟨c, cs, hcs, hc⟩ := compactChars_head h.1
      rw [hcs] at hdoc
      have hitems :=
        Document.ReadsItems.next hdoc hc hdocs (ends_moreItems items) blank_nil blank_nil
      rw [← hcs] at hitems
      refine ⟨doc :: docs, ?_, TakesItems.cons htakes htakes', fun he => ?_⟩
      · have htext : moreItems (item :: items) =
            [] ++ (',' :: ([] ++ (compactChars item ++ moreItems items))) := by
          simp [moreItems, compactItems]
        rw [htext]
        exact hitems
      · rw [hexact he.1, hexact' he.2]
        rfl

/-- What stands behind a member is read as the further members. -/
theorem exists_reads_moreMembers : (members : List (String × Json)) → MembersValid members →
    ∃ docs, ReadsMembers false (moreMembers members) docs ∧
      List.Forall₂ MemberTakes members docs ∧
      (MembersExact members → docs = Document.ofMembers members)
  | [], _ => ⟨[], Document.ReadsMembers.close blank_nil, .nil, fun _ => rfl⟩
  | (key, value) :: members, h => by
      obtain ⟨doc, hdoc, htakes, hexact⟩ := exists_reads_compactChars value h.1
      obtain ⟨docs, hdocs, htakes', hexact'⟩ := exists_reads_moreMembers members h.2
      have hmembers : ReadsMembers false ([] ++ (',' :: ([] ++
          (Document.keyed key (compactChars value) ++ moreMembers members))))
          ((.ok key, doc) :: docs) :=
        Document.ReadsMembers.next hdoc hdocs (ends_moreMembers members) blank_nil blank_nil
      refine ⟨(.ok key, doc) :: docs, ?_, .cons ⟨rfl, htakes⟩ htakes', fun he => ?_⟩
      · have htext : moreMembers ((key, value) :: members) =
            [] ++ (',' :: ([] ++
              (Document.keyed key (compactChars value) ++ moreMembers members))) := by
          simp [moreMembers, compactMembers, Document.keyed]
        rw [htext]
        exact hmembers
      · rw [hexact he.1, hexact' he.2]
        rfl

end

end Json

end Stencil
