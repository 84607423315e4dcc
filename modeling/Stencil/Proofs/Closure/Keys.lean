/-
The keys of a render.

A render lists the templates it can reach, one for every row of tags that leads to one, and gives
each a key: the key of the root and the names in the row, with `>` in front of every name.  Since
a name may hold that character itself, two rows can spell the same key, and then the template
listed last is included in both places.  The keys are all different exactly if no two rows spell
the same one, and they are whenever no name holds a `>`.
-/
import Mathlib
import Stencil.Closure
import Stencil.Proofs.Activity
import Stencil.Proofs.Dict
import Stencil.Proofs.Names

namespace Stencil.Closure

/-! ## Rows of tags -/

/-- The template that a row of tags leads to, with what its own tags stand for. -/
def tagged? (overrides : Dict Closure) (t : Template) (lookup : Dict Closure) :
    List String → Option (Template × Dict Closure)
  | [] => some (t, lookup)
  | name :: rest =>
    if name ∈ known lookup (Piece.ofText t.source) then
      match lookup.get? name with
      | none => none
      | some child =>
        tagged? overrides child.template (Dict.override child.partials overrides) rest
    else none

/-- The key of the template that a row of tags leads to. -/
def rowKey (key : String) (row : List String) : String := row.foldl Engine.childKey key

/-- The rows of tags, in the order in which a render lists the templates. -/
def rows (overrides : Dict Closure) : (room : Nat) → Template → Dict Closure → List (List String)
  | 0, _, _ => []
  | room + 1, t, lookup =>
    [] :: (known lookup (Piece.ofText t.source)).flatMap fun name =>
      match lookup.get? name with
      | none => []
      | some child =>
        (rows overrides room child.template (Dict.override child.partials overrides)).map
          (name :: ·)

/-- What a render lists for a row of tags. -/
def entry (overrides : Dict Closure) (key : String) (t : Template) (lookup : Dict Closure)
    (row : List String) : String × String :=
  match tagged? overrides t lookup row with
  | none => (rowKey key row, "")
  | some (u, below) => (rowKey key row, withInclusions below (rowKey key row)
      (Piece.ofText u.source))

variable {overrides lookup : Dict Closure} {t : Template} {key name : String}

theorem nodup_known (lookup : Dict Closure) (pieces : List Piece) :
    (known lookup pieces).Nodup :=
  Names.nodup_eraseDups _

theorem exists_get?_of_mem_known {pieces : List Piece} (h : name ∈ known lookup pieces) :
    ∃ child, lookup.get? name = some child := by
  rw [known, List.mem_eraseDups, List.mem_filter] at h
  exact Dict.hasKey_iff_exists.mp h.2

theorem tagged?_cons {child : Closure} (hname : name ∈ known lookup (Piece.ofText t.source))
    (hchild : lookup.get? name = some child) (row : List String) :
    tagged? overrides t lookup (name :: row) =
      tagged? overrides child.template (Dict.override child.partials overrides) row := by
  rw [tagged?, if_pos hname, hchild]

theorem entry_cons {child : Closure} (hname : name ∈ known lookup (Piece.ofText t.source))
    (hchild : lookup.get? name = some child) (key : String) (row : List String) :
    entry overrides key t lookup (name :: row) =
      entry overrides (Engine.childKey key name) child.template
        (Dict.override child.partials overrides) row := by
  rw [entry, entry, tagged?_cons hname hchild]
  rfl

theorem entry_fst (row : List String) :
    (entry overrides key t lookup row).1 = rowKey key row := by
  rw [entry]
  split <;> rfl

theorem entry_of_tagged? {u : Template} {below : Dict Closure} {row : List String}
    (h : tagged? overrides t lookup row = some (u, below)) (key : String) :
    entry overrides key t lookup row = (rowKey key row, withInclusions below (rowKey key row)
      (Piece.ofText u.source)) := by
  rw [entry, h]

/-! ## What is listed -/

/-- Taking the partials as they are is the same as putting no overrides over them. -/
theorem nested_eq (overrides own : Dict Closure) :
    nested overrides own = Dict.override own overrides := by
  rw [nested]
  split
  next h =>
    rw [List.isEmpty_iff.mp h]
    rfl
  next _ => rfl

/-- The sources of the partial that a tag names. -/
def sourcesBelow (overrides : Dict Closure) (room : Nat) (key : String) (lookup : Dict Closure)
    (name : String) : Except Error (List (String × String)) :=
  match lookup.get? name with
  | none => .ok []
  | some child =>
    sources overrides room (Engine.childKey key name) child.template
      (Dict.override child.partials overrides)

theorem sources_succ (overrides : Dict Closure) (room : Nat) (key : String) (t : Template)
    (lookup : Dict Closure) :
    sources overrides (room + 1) key t lookup = do
      let below ← (known lookup (Piece.ofText t.source)).mapM
        (sourcesBelow overrides room key lookup)
      return (key, withInclusions lookup key (Piece.ofText t.source)) :: below.flatten := by
  simp only [sources, nested_eq]
  rfl

/-- The sources of a template are its own and those of the partials that its known tags name. -/
theorem sources_succ_eq_ok {room : Nat} {texts : List (String × String)}
    (h : sources overrides (room + 1) key t lookup = .ok texts) :
    ∃ below, List.Forall₂ (fun name found => sourcesBelow overrides room key lookup name = .ok found)
        (known lookup (Piece.ofText t.source)) below ∧
      texts = (key, withInclusions lookup key (Piece.ofText t.source)) :: below.flatten := by
  rw [sources_succ] at h
  obtain ⟨below, hbelow, h⟩ := Activity.bind_eq_ok.mp h
  cases h
  exact ⟨below, Activity.mapM_eq_ok.mp hbelow, rfl⟩

/-- Where the sources of a template cannot be listed, those of some partial cannot, and those of the
partials in front of it can. -/
theorem sources_succ_eq_error {room : Nat} {e : Error}
    (h : sources overrides (room + 1) key t lookup = .error e) :
    ∃ before name after, known lookup (Piece.ofText t.source) = before ++ name :: after ∧
      (∀ name' ∈ before, ∃ found, sourcesBelow overrides room key lookup name' = .ok found) ∧
      sourcesBelow overrides room key lookup name = .error e := by
  rw [sources_succ] at h
  rcases Activity.bind_eq_error.mp h with h | ⟨below, -, h⟩
  · exact Activity.exists_of_mapM_eq_error h
  · cases h

/-- A render lists one source for every row of tags, under the key that the row spells. -/
theorem sources_eq_rows {room : Nat} {texts : List (String × String)}
    (h : sources overrides room key t lookup = .ok texts) :
    texts = (rows overrides room t lookup).map (entry overrides key t lookup) := by
  induction room generalizing key t lookup texts with
  | zero => cases h
  | succ room ih =>
      obtain ⟨below, hbelow, rfl⟩ := sources_succ_eq_ok h
      rw [rows, List.map_cons, entry_of_tagged? rfl]
      congr 1
      -- Along the known tags, each list found is the entries of the rows through that tag.
      suffices ∀ names, (∀ name ∈ names, name ∈ known lookup (Piece.ofText t.source)) →
          ∀ below, List.Forall₂
            (fun name found => sourcesBelow overrides room key lookup name = .ok found) names below →
          below.flatten = (names.flatMap fun name =>
            match lookup.get? name with
            | none => []
            | some child => (rows overrides room child.template
                (Dict.override child.partials overrides)).map (name :: ·)).map
            (entry overrides key t lookup) by
        exact this _ (fun _ hname => hname) below hbelow
      intro names hnames below hbelow
      induction hbelow with
      | nil => rfl
      | @cons name found names below hfound hrest ihr =>
          rw [List.flatten_cons, List.flatMap_cons, List.map_append,
            ← ihr fun n hn => hnames n (List.mem_cons_of_mem _ hn)]
          have hname := hnames name List.mem_cons_self
          obtain ⟨child, hchild⟩ := exists_get?_of_mem_known hname
          rw [sourcesBelow, hchild] at hfound
          rw [hchild, ih hfound, List.map_map]
          congr 1
          exact List.map_congr_left fun row _ => (entry_cons hname hchild key row).symm

theorem cons_mem_rows_iff {room : Nat} {row : List String} :
    name :: row ∈ rows overrides (room + 1) t lookup ↔
      name ∈ known lookup (Piece.ofText t.source) ∧ ∃ child, lookup.get? name = some child ∧
        row ∈ rows overrides room child.template (Dict.override child.partials overrides) := by
  rw [rows, List.mem_cons, List.mem_flatMap]
  constructor
  · rintro (h | ⟨name', hname, h⟩)
    · cases h
    · obtain ⟨child, hchild⟩ := exists_get?_of_mem_known hname
      rw [hchild] at h
      obtain ⟨row', hrow, heq⟩ := List.mem_map.mp h
      cases heq
      exact ⟨hname, child, hchild, hrow⟩
  · rintro ⟨hname, child, hchild, hrow⟩
    refine .inr ⟨name, hname, ?_⟩
    rw [hchild]
    exact List.mem_map_of_mem hrow

/-- A render that succeeds lists every row of tags. -/
theorem mem_rows_iff {room : Nat} {texts : List (String × String)}
    (h : sources overrides room key t lookup = .ok texts) (row : List String) :
    row ∈ rows overrides room t lookup ↔ (tagged? overrides t lookup row).isSome := by
  induction room generalizing key t lookup texts row with
  | zero => cases h
  | succ room ih =>
      cases row with
      | nil => simp [rows, tagged?]
      | cons name row =>
          obtain ⟨below, hbelow, -⟩ := sources_succ_eq_ok h
          rw [cons_mem_rows_iff]
          by_cases hname : name ∈ known lookup (Piece.ofText t.source)
          · obtain ⟨found, -, hfound⟩ := Activity.exists_of_forall₂ hbelow hname
            obtain ⟨child, hchild⟩ := exists_get?_of_mem_known hname
            rw [sourcesBelow, hchild] at hfound
            rw [tagged?_cons hname hchild, ← ih hfound]
            simp [hname, hchild]
          · rw [tagged?, if_neg hname]
            simp [hname]

theorem nodup_rows (overrides : Dict Closure) (room : Nat) (t : Template)
    (lookup : Dict Closure) : (rows overrides room t lookup).Nodup := by
  induction room generalizing t lookup with
  | zero => exact List.nodup_nil
  | succ room ih =>
      rw [rows, List.nodup_cons, List.nodup_flatMap]
      refine ⟨?_, fun name _ => ?_, ?_⟩
      · rw [List.mem_flatMap]
        rintro ⟨name, -, h⟩
        split at h
        · cases h
        · obtain ⟨row, -, heq⟩ := List.mem_map.mp h
          cases heq
      · split
        · exact List.nodup_nil
        · exact (ih _ _).map (List.cons_injective)
      · -- Rows through different tags differ in their first name.
        refine (nodup_known lookup _).imp fun {a b} hab row ha hb => hab ?_
        dsimp only at ha hb
        split at ha
        · cases ha
        · split at hb
          · cases hb
          · obtain ⟨row₁, -, rfl⟩ := List.mem_map.mp ha
            obtain ⟨row₂, -, heq⟩ := List.mem_map.mp hb
            cases heq
            rfl

/-- Whether no two rows of tags spell the same key. -/
def KeysDiffer (overrides : Dict Closure) (key : String) (t : Template)
    (lookup : Dict Closure) : Prop :=
  ∀ row row', (tagged? overrides t lookup row).isSome → (tagged? overrides t lookup row').isSome →
    rowKey key row = rowKey key row' → row = row'

/-- The keys of a render are all different exactly if no two rows spell the same one. -/
theorem nodup_keys_iff {room : Nat} {texts : List (String × String)}
    (h : sources overrides room key t lookup = .ok texts) :
    (Dict.keys texts).Nodup ↔ KeysDiffer overrides key t lookup := by
  have hkeys : Dict.keys texts = (rows overrides room t lookup).map (rowKey key) := by
    rw [sources_eq_rows h, Dict.keys, List.map_map]
    exact List.map_congr_left fun row _ => entry_fst row
  rw [hkeys, List.nodup_map_iff_inj_on (nodup_rows overrides room t lookup)]
  constructor
  · intro hinj row row' hrow hrow' heq
    rw [← mem_rows_iff h] at hrow hrow'
    exact hinj row hrow row' hrow' heq
  · intro hdiffer row hrow row' hrow' heq
    rw [mem_rows_iff h] at hrow hrow'
    exact hdiffer row row' hrow hrow' heq

/-! ## Names without the separator -/

theorem toList_rowKey (key : String) (row : List String) :
    (rowKey key row).toList = key.toList ++ row.flatMap fun name => '>' :: name.toList := by
  induction row generalizing key with
  | nil => simp [rowKey]
  | cons name row ih =>
      show (rowKey (Engine.childKey key name) row).toList = _
      rw [ih]
      simp [Engine.childKey]

theorem append_injective_of_not_mem {a a' b b' : List Char} (ha : '>' ∉ a) (ha' : '>' ∉ a')
    (hb : b = [] ∨ b.head? = some '>') (hb' : b' = [] ∨ b'.head? = some '>')
    (h : a ++ b = a' ++ b') : a = a' ∧ b = b' := by
  induction a generalizing a' with
  | nil =>
      cases a' with
      | nil => exact ⟨rfl, h⟩
      | cons c a' =>
          rw [List.nil_append] at h
          subst h
          rcases hb with hb | hb
          · cases hb
          · cases hb
            exact absurd List.mem_cons_self ha'
  | cons c a ih =>
      cases a' with
      | nil =>
          rw [List.nil_append] at h
          subst h
          rcases hb' with hb' | hb'
          · cases hb'
          · cases hb'
            exact absurd List.mem_cons_self ha
      | cons c' a' =>
          rw [List.cons_append, List.cons_append, List.cons.injEq] at h
          obtain ⟨rfl, h⟩ := h
          obtain ⟨rfl, rfl⟩ := ih (fun hm => ha (List.mem_cons_of_mem _ hm))
            (fun hm => ha' (List.mem_cons_of_mem _ hm)) h
          exact ⟨rfl, rfl⟩

/-- Rows of names that do not hold the separator are told apart by their keys. -/
theorem rowKey_injective {row row' : List String} (h : ∀ name ∈ row, '>' ∉ name.toList)
    (h' : ∀ name ∈ row', '>' ∉ name.toList) (heq : rowKey key row = rowKey key row') :
    row = row' := by
  have hlist := congrArg String.toList heq
  rw [toList_rowKey, toList_rowKey] at hlist
  replace hlist := List.append_cancel_left hlist
  clear heq
  have hhead : ∀ row : List String, (row.flatMap fun name => '>' :: name.toList) = [] ∨
      (row.flatMap fun name => '>' :: name.toList).head? = some '>' := by
    intro row
    cases row with
    | nil => exact .inl rfl
    | cons name row => exact .inr rfl
  induction row generalizing row' with
  | nil =>
      cases row' with
      | nil => rfl
      | cons name' row' => cases hlist
  | cons name row ih =>
      cases row' with
      | nil => cases hlist
      | cons name' row' =>
          rw [List.flatMap_cons, List.flatMap_cons, List.cons_append, List.cons_append,
            List.cons.injEq] at hlist
          obtain ⟨hname, hrest⟩ := append_injective_of_not_mem (h name List.mem_cons_self)
            (h' name' List.mem_cons_self) (hhead row) (hhead row') hlist.2
          rw [String.toList_inj.mp hname,
            ih (fun n hn => h n (List.mem_cons_of_mem _ hn))
              (fun n hn => h' n (List.mem_cons_of_mem _ hn)) hrest]

theorem keysDiffer_of_not_mem
    (h : ∀ row, (tagged? overrides t lookup row).isSome → ∀ name ∈ row, '>' ∉ name.toList) :
    KeysDiffer overrides key t lookup :=
  fun row row' hrow hrow' heq => rowKey_injective (h row hrow) (h row' hrow') heq

/-! ## The engine

A later text under a key replaces an earlier one, so with different keys every row of tags is
included as itself. -/

theorem register_eq_ok {sheets found : Dict Language.Sheet} {entry : String × String}
    (h : Engine.register sheets entry = .ok found) :
    ∃ sheet, Language.Sheet.ofText entry.2 = .ok sheet ∧ found = sheets.insert entry.1 sheet := by
  unfold Engine.register at h
  cases hsheet : Language.Sheet.ofText entry.2 with
  | error defect =>
      rw [hsheet] at h
      cases h
  | ok sheet =>
      rw [hsheet] at h
      cases h
      exact ⟨sheet, rfl, rfl⟩

theorem get?_parseAll_of_not_mem {sheets found : Dict Language.Sheet}
    {texts : List (String × String)} (h : Engine.parseAll sheets texts = .ok found)
    (hkey : key ∉ Dict.keys texts) : found.get? key = sheets.get? key := by
  induction texts generalizing sheets with
  | nil =>
      cases h
      rfl
  | cons entry texts ih =>
      obtain ⟨hk, hkey⟩ : ¬ key = entry.1 ∧ key ∉ Dict.keys texts := by
        simpa [Dict.keys] using hkey
      obtain ⟨sheets', hentry, h⟩ := Activity.bind_eq_ok.mp h
      obtain ⟨sheet, -, rfl⟩ := register_eq_ok hentry
      rw [ih h hkey, Dict.get?_insert_ne (Ne.symm hk)]

theorem get?_parseAll_of_mem {sheets found : Dict Language.Sheet}
    {texts : List (String × String)} {text : String}
    (h : Engine.parseAll sheets texts = .ok found) (hdiffer : (Dict.keys texts).Nodup)
    (hmem : (key, text) ∈ texts) :
    ∃ sheet, Language.Sheet.ofText text = .ok sheet ∧ found.get? key = some sheet := by
  induction texts generalizing sheets with
  | nil => cases hmem
  | cons entry texts ih =>
      obtain ⟨hk, hdiffer⟩ : entry.1 ∉ Dict.keys texts ∧ (Dict.keys texts).Nodup :=
        List.nodup_cons.mp hdiffer
      obtain ⟨sheets', hentry, h⟩ := Activity.bind_eq_ok.mp h
      rcases List.mem_cons.mp hmem with heq | hmem
      · obtain ⟨sheet, hsheet, rfl⟩ := register_eq_ok hentry
        cases heq
        refine ⟨sheet, hsheet, ?_⟩
        rw [get?_parseAll_of_not_mem h hk, Dict.get?_insert_self]
      · exact ih h hdiffer hmem

theorem parseAll_of_ofTexts {texts : List (String × String)} {engine : Engine}
    (h : Engine.ofTexts texts = .ok engine) : Engine.parseAll [] texts = .ok engine.sheets := by
  obtain ⟨sheets, hsheets, h⟩ := Activity.bind_eq_ok.mp h
  obtain ⟨-, -, h⟩ := Activity.bind_eq_ok.mp h
  obtain ⟨-, -, h⟩ := Activity.bind_eq_ok.mp h
  cases h
  exact hsheets

theorem tagged?_append_singleton {row : List String} {u : Template} {below : Dict Closure}
    {child : Closure} (h : tagged? overrides t lookup row = some (u, below))
    (hname : name ∈ known below (Piece.ofText u.source)) (hchild : below.get? name = some child) :
    tagged? overrides t lookup (row ++ [name]) =
      some (child.template, Dict.override child.partials overrides) := by
  induction row generalizing t lookup with
  | nil =>
      cases h
      rw [List.nil_append, tagged?_cons hname hchild]
      rfl
  | cons first row ih =>
      rw [tagged?] at h
      split at h
      next hfirst =>
        obtain ⟨next, hnext⟩ := exists_get?_of_mem_known hfirst
        rw [hnext] at h
        rw [List.cons_append, tagged?_cons hfirst hnext]
        exact ih h
      next _ => cases h

/-- What holds of the root and is handed down by every tag holds of all templates. -/
theorem of_tagged? {P : Template → Dict Closure → Prop}
    (hstep : ∀ u below name child, P u below → name ∈ known below (Piece.ofText u.source) →
      below.get? name = some child → P child.template (Dict.override child.partials overrides))
    {row : List String} {u : Template} {below : Dict Closure} (hroot : P t lookup)
    (h : tagged? overrides t lookup row = some (u, below)) : P u below := by
  induction row generalizing t lookup with
  | nil =>
      cases h
      exact hroot
  | cons first row ih =>
      rw [tagged?] at h
      split at h
      next hfirst =>
        obtain ⟨next, hnext⟩ := exists_get?_of_mem_known hfirst
        rw [hnext] at h
        exact ih (hstep t lookup first next hroot hfirst hnext) h
      next _ => cases h

/-- Whether an engine includes for every tag the partial that the lookup of its own template has
under the name. -/
def IncludesOwn (overrides : Dict Closure) (key : String) (t : Template) (lookup : Dict Closure)
    (engine : Engine) : Prop :=
  ∀ row u below, tagged? overrides t lookup row = some (u, below) →
    ∀ name ∈ known below (Piece.ofText u.source), ∀ child, below.get? name = some child →
      ∃ sheet,
        Language.Sheet.ofText (withInclusions (Dict.override child.partials overrides)
          (Engine.childKey (rowKey key row) name) (Piece.ofText child.template.source)) =
            .ok sheet ∧
        engine.sheets.get? (Engine.childKey (rowKey key row) name) = some sheet

theorem includesOwn_of_keysDiffer {room : Nat} {texts : List (String × String)} {engine : Engine}
    (h : sources overrides room key t lookup = .ok texts)
    (hdiffer : KeysDiffer overrides key t lookup) (hengine : Engine.ofTexts texts = .ok engine) :
    IncludesOwn overrides key t lookup engine := by
  intro row u below hrow name hname child hchild
  have hchildRow := tagged?_append_singleton hrow hname hchild
  have hkey : rowKey key (row ++ [name]) = Engine.childKey (rowKey key row) name := by
    rw [rowKey, List.foldl_append]
    rfl
  have hmem : entry overrides key t lookup (row ++ [name]) ∈ texts := by
    rw [sources_eq_rows h]
    refine List.mem_map_of_mem ((mem_rows_iff h _).mpr ?_)
    rw [hchildRow]
    rfl
  rw [entry_of_tagged? hchildRow, hkey] at hmem
  exact get?_parseAll_of_mem (parseAll_of_ofTexts hengine) ((nodup_keys_iff h).mpr hdiffer) hmem

/-! ## Result -/

/-- For every list of sources of a render: its keys are all different exactly if no two rows of
tags spell the same key; they are if no name in a row holds the separator; and if they are, every
tag includes the partial that its own template means. -/
theorem scoped_keys {room : Nat} {texts : List (String × String)}
    (h : sources overrides room key t lookup = .ok texts) :
    ((Dict.keys texts).Nodup ↔ KeysDiffer overrides key t lookup) ∧
    ((∀ row, (tagged? overrides t lookup row).isSome → ∀ name ∈ row, '>' ∉ name.toList) →
      (Dict.keys texts).Nodup) ∧
    ((Dict.keys texts).Nodup → ∀ engine, Engine.ofTexts texts = .ok engine →
      IncludesOwn overrides key t lookup engine) :=
  ⟨nodup_keys_iff h, fun hnames => (nodup_keys_iff h).mpr (keysDiffer_of_not_mem hnames),
    fun hnodup _ hengine => includesOwn_of_keysDiffer h ((nodup_keys_iff h).mp hnodup) hengine⟩

/-- A template whose tags are written in their normal form. -/
def plainTemplate (text : String) (tags : List String) : Template := ⟨"t", text, text, tags, {}⟩

/-- A root with the tags `a` and `b`, where the partial `a` has a tag `b` of its own. -/
def nestedRoot : Closure :=
  .mk (plainTemplate "\x7b\x7b> a\x7d\x7d\x7b\x7b> b\x7d\x7d" ["a", "b"])
    [("a", .mk (plainTemplate "\x7b\x7b> b\x7d\x7d" ["b"]) [("b", .mk (plainTemplate "inner" []) [])]),
      ("b", .mk (plainTemplate "outer" []) [])]

theorem scoped_keys_nestedRoot :
    sources [] 3 "r" nestedRoot.template nestedRoot.partials =
        .ok [("r", "\x7b% include \"r>a\" %\x7d\x7b% include \"r>b\" %\x7d"),
          ("r>a", "\x7b% include \"r>a>b\" %\x7d"), ("r>a>b", "inner"), ("r>b", "outer")] ∧
      KeysDiffer [] "r" nestedRoot.template nestedRoot.partials := by
  have hsources : sources [] 3 "r" nestedRoot.template nestedRoot.partials =
      .ok [("r", "\x7b% include \"r>a\" %\x7d\x7b% include \"r>b\" %\x7d"),
        ("r>a", "\x7b% include \"r>a>b\" %\x7d"), ("r>a>b", "inner"), ("r>b", "outer")] := by rfl
  exact ⟨hsources, (scoped_keys hsources).1.mp (by decide)⟩

/-- The same root with a tag `a>b` in place of `b`. -/
def clashingRoot : Closure :=
  .mk (plainTemplate "\x7b\x7b> a\x7d\x7d\x7b\x7b> a>b\x7d\x7d" ["a", "a>b"])
    [("a", .mk (plainTemplate "\x7b\x7b> b\x7d\x7d" ["b"]) [("b", .mk (plainTemplate "inner" []) [])]),
      ("a>b", .mk (plainTemplate "outer" []) [])]

/-- The tag `b` of the partial `a` and the tag `a>b` beside it spell the same key, and what the
latter stands for is registered last. -/
theorem scoped_keys_clashingRoot :
    sources [] 3 "r" clashingRoot.template clashingRoot.partials =
      .ok [("r", "\x7b% include \"r>a\" %\x7d\x7b% include \"r>a>b\" %\x7d"),
        ("r>a", "\x7b% include \"r>a>b\" %\x7d"), ("r>a>b", "inner"), ("r>a>b", "outer")] := by
  rfl

end Stencil.Closure
