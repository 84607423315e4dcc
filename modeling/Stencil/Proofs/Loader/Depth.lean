/-
How deep a load can go.

The key of a partial is not settled by the address of the text that names it: an extension can put
segments between a key and its address, and keys of any length can share one address.  But unless
the extension lengthens names, the directory of a fetch path is where the path itself ends, or one
segment above, or one known segment below.  So a tag in the text at an address leads to one of a
few keys, whose segments are known again.  A store has texts at finitely many addresses, hence
finitely many keys are below a key, and no way down goes on without end.
-/
import Mathlib
import Stencil.Proofs.Loader.Graph
import Stencil.Proofs.Path.Lengthening
import Stencil.Proofs.Reference
import Stencil.Proofs.Template

namespace Stencil

namespace Path

/-- Whether an extension ends in the segment `..`. -/
def EndsInParent (extension : String) : Prop := ['/', '.', '.'] <:+ extension.toList

/-- An extension that lengthens names ends in that segment. -/
theorem endsInParent_of_lengthens {extension : String} (h : Lengthens extension.toList) :
    EndsInParent extension := by
  obtain ⟨first, mid, hsegments, -, -⟩ := h
  rw [← List.cons_append] at hsegments
  have hjoin := joinSegments_segments extension.toList
  rw [hsegments, joinSegments_concat (List.cons_ne_nil _ _)] at hjoin
  exact ⟨joinSegments (first :: mid), hjoin⟩

end Path

namespace Place

open Stencil.Path (relativeChars joinSegments location isAbsolute)

/-- What the addresses of a place start with. -/
def start : Place → List Char
  | memory => []
  | directory root =>
    if root.toList = [] ∨ root.toList.getLast? = some '/' then root.toList
    else root.toList ++ ['/']
  | web base => Path.withoutEndSlashes base.toList ++ ['/']

/-- What stands at an address behind the start and a slash. -/
def relative (place : Place) (address : String) : List Char :=
  relativeChars (address.toList.drop place.start.length)

/-- The segments of a fetch path can be read off its address. -/
theorem relative_address (place : Place) (path : String) :
    place.relative (place.address path) =
      joinSegments (location (isAbsolute path.toList) path.toList).reverse := by
  have hrel := Path.relativeChars_normalizeChars path.toList
  have hstanding := Path.standing_location (isAbsolute path.toList) path.toList
  rw [relative]
  cases place with
  | memory =>
      rw [address, String.toList_ofList]
      exact hrel
  | directory root =>
      have hplain : isAbsolute (joinSegments
          (location (isAbsolute path.toList) path.toList).reverse) = false := by
        show (_ == some '/') = false
        rw [beq_eq_false_iff_ne]
        exact Path.head?_joinSegments hstanding
      rw [address, String.toList_ofList, hrel, Path.joinChars, hplain, start]
      split
      · rw [if_neg (by simp), List.drop_left, Path.relativeChars_joinSegments hstanding]
      · rw [if_neg (by simp), List.append_cons root.toList '/' (joinSegments _), List.drop_left,
          Path.relativeChars_joinSegments hstanding]
  | web base =>
      rw [address, String.toList_ofList, hrel, start,
        List.append_cons (Path.withoutEndSlashes base.toList) '/' (joinSegments _),
        List.drop_left, Path.relativeChars_joinSegments hstanding]

end Place

namespace TextStore

theorem finite_utf8ByteSize_le (n : Nat) : {s : String | s.utf8ByteSize ≤ n}.Finite := by
  have hbytes : Finite UInt8 := Finite.of_injective UInt8.toFin fun _ _ => UInt8.toFin_inj.mp
  have hinjective : Function.Injective fun s : String => s.toByteArray.data.toList := by
    intro s t h
    exact String.toByteArray_inj.mp (ByteArray.ext (Array.toList_inj.mp h))
  refine ((List.finite_length_le UInt8 n).preimage hinjective.injOn).subset fun s hs => ?_
  show s.toByteArray.data.toList.length ≤ n
  rw [Array.length_toList]
  exact hs

/-- A path that a text can be read from is not too long. -/
theorem utf8ByteSize_le_of_readText {files : FileSystem} {path text : String}
    (h : files.readText path = .ok text) : path.utf8ByteSize ≤ FileSystem.maxPath := by
  rw [FileSystem.readText] at h
  obtain ⟨t, hfind, -⟩ := Activity.bind_eq_ok.mp h
  rw [FileSystem.find] at hfind
  obtain ⟨place, hplace, -⟩ := Activity.bind_eq_ok.mp hfind
  rw [FileSystem.locate] at hplace
  obtain ⟨⟨⟩, hcheck, -⟩ := Activity.bind_eq_ok.mp hplace
  by_contra hlong
  rw [FileSystem.checkPath] at hcheck
  split at hcheck
  · cases hcheck
  · split at hcheck
    · cases hcheck
    · rw [if_pos (by omega)] at hcheck
      cases hcheck

/-- A store has texts at finitely many addresses. -/
theorem finite_texts (files : FileSystem) (store : TextStore) :
    {address | ∃ text, store.text files address = .ok text}.Finite := by
  cases store with
  | memory shelf =>
      refine (List.finite_toSet (Dict.keys shelf.texts)).subset fun address h => ?_
      obtain ⟨text, htext⟩ := h
      exact Dict.mem_keys_of_get?_eq_some (TextStore.text_memory_eq_ok.mp htext)
  | directory root =>
      refine (finite_utf8ByteSize_le FileSystem.maxPath).subset fun address h => ?_
      obtain ⟨text, htext⟩ := h
      rw [TextStore.text, fetch] at htext
      split at htext
      next text' hread => exact utf8ByteSize_le_of_readText hread
      next _ _ => cases htext
  | web base =>
      refine Set.finite_empty.subset fun address h => ?_
      obtain ⟨text, htext⟩ := h
      cases htext

/-- All texts of a store can be listed with their addresses. -/
theorem exists_texts (files : FileSystem) (store : TextStore) :
    ∃ texts : List (String × String),
      ∀ address text, store.text files address = .ok text → (address, text) ∈ texts := by
  obtain ⟨addresses, haddresses⟩ := (store.finite_texts files).exists_finset
  refine ⟨addresses.toList.filterMap fun address =>
    (store.text files address).toOption.map (address, ·), fun address text htext => ?_⟩
  refine List.mem_filterMap.mpr ⟨address, ?_, by rw [htext]; rfl⟩
  exact Finset.mem_toList.mpr ((haddresses address).mpr ⟨text, htext⟩)

end TextStore

namespace Loader

open Stencil.Path (Segment Lengthens location directory isAbsolute ofSegments segments step here
  parent)

/-- The path on which a tag leads from some location. -/
def pathFrom (absolute : Bool) (loc : List Segment) (raw : String) : String :=
  String.ofList (ofSegments absolute ((segments raw.toList).foldl (step absolute) loc).reverse)

/-- The directories that the template of a text at an address can have, if the segments that can
stand between the two are known. -/
def directories (letters : List Segment) (place : Place) (address : String) (absolute : Bool) :
    List (List Segment) :=
  let loc := location absolute (place.relative address)
  loc :: loc.tail :: letters.map (· :: loc)

/-- The keys that a tag can lead to in a text at an address. -/
def candidates (letters : List Segment) (c : Config) (place : Place) (address raw : String) :
    List String :=
  [Path.normalize raw, Path.normalize (c.prefix?.getD "" ++ raw)] ++
    [false, true].flatMap fun absolute =>
      (directories letters place address absolute).map (pathFrom absolute · raw)

/-- The segments that keys can have below a key: those of that key and of the extension, those of
the addresses, and those of the tags in the texts. -/
def letters (c : Config) (place : Place) (texts : List (String × String)) (start : String) :
    List Segment :=
  [] :: parent :: segments start.toList ++ segments c.extension.toList ++
    texts.flatMap fun (address, text) =>
      location false (place.relative address) ++ location true (place.relative address) ++
        (Piece.names (Piece.ofText text)).flatMap fun raw =>
          segments raw.toList ++ segments (c.prefix?.getD "" ++ raw).toList

/-- The segments suffice for the keys that a tag in a text at an address leads to. -/
structure Spells (ls : List Segment) (c : Config) (place : Place) (address raw : String) :
    Prop where
  empty : [] ∈ ls
  parent : Path.parent ∈ ls
  extension : ∀ s ∈ segments c.extension.toList, s ∈ ls
  place : ∀ absolute, ∀ s ∈ location absolute (place.relative address), s ∈ ls
  tag : ∀ s ∈ segments raw.toList, s ∈ ls
  behind : ∀ s ∈ segments (c.prefix?.getD "" ++ raw).toList, s ∈ ls

variable {files : FileSystem} {c : Config} {store : TextStore} {key name raw id : String}
  {place : Place} {ls : List Segment}

/-! ## Segments of keys -/

/-- A path that leads on from some location has the segments of the location and of the tag. -/
theorem mem_segments_pathFrom {absolute : Bool} {loc : List Segment} {raw : String} {s : Segment}
    (hloc : Path.Standing absolute loc) (h : s ∈ segments (pathFrom absolute loc raw).toList) :
    s ∈ loc ∨ s ∈ segments raw.toList ∨ s = [] ∨ s = parent := by
  have hstanding : Path.Standing absolute ((segments raw.toList).foldl (step absolute) loc) :=
    Path.standing_foldl hloc fun _ => Path.not_mem_of_mem_segments
  rw [pathFrom, String.toList_ofList, Path.segments_ofSegments hstanding] at h
  rcases List.mem_append.mp h with h | h
  · cases absolute with
    | false => cases h
    | true => exact .inr (.inr (.inl (List.mem_singleton.mp h)))
  · split at h
    · exact .inr (.inr (.inl (List.mem_singleton.mp h)))
    · rcases Path.mem_foldl_step (List.mem_reverse.mp h) with h | h | h
      · exact .inl h
      · exact .inr (.inl h)
      · exact .inr (.inr (.inr h))

theorem mem_segments_normalize {path : String} {s : Segment}
    (h : s ∈ segments (Path.normalize path).toList) :
    s ∈ segments path.toList ∨ s = [] ∨ s = parent := by
  have hpath : Path.normalize path = pathFrom (isAbsolute path.toList) [] path := rfl
  rw [hpath] at h
  exact (mem_segments_pathFrom Path.standing_nil h).resolve_left List.not_mem_nil

theorem location_relative_address (place : Place) (path : String) :
    location (isAbsolute path.toList) (place.relative (place.address path)) =
      location (isAbsolute path.toList) path.toList := by
  rw [Place.relative_address]
  exact Path.location_joinSegments (Path.standing_location _ _)

/-- The directory of a template is one of those that its address allows. -/
theorem directory_mem_directories (hext : ¬ Lengthens c.extension.toList)
    (hkey : ∀ s ∈ segments key.toList, s ∈ ls)
    (h : Spells ls c place (place.address (c.fetchPath key)) raw) :
    let path := (c.fetchPath key).toList
    let absolute := isAbsolute path
    directory absolute path ∈
        directories ls place (place.address (c.fetchPath key)) absolute ∧
      ∀ s ∈ directory absolute path, s ∈ ls := by
  intro path absolute
  have hpath : path = key.toList ++ c.extension.toList := String.toList_append
  have hcases := Path.directory_cases hext absolute key.toList
  rw [← hpath] at hcases
  have hloc := h.place absolute
  rw [location_relative_address] at hloc
  rw [directories, location_relative_address]
  show directory absolute path ∈ location absolute path :: _ ∧ _
  rcases hcases with hdir | hdir | ⟨s, hs, hdir⟩
  · rw [hdir]
    exact ⟨List.mem_cons_self, hloc⟩
  · rw [hdir]
    exact ⟨List.mem_cons_of_mem _ List.mem_cons_self, fun s hs => hloc s (List.mem_of_mem_tail hs)⟩
  · have hmem : s ∈ ls := hs.elim (hkey s) (h.extension s)
    rw [hdir]
    refine ⟨List.mem_cons_of_mem _ (List.mem_cons_of_mem _ (List.mem_map_of_mem hmem)), ?_⟩
    intro t ht
    rcases List.mem_cons.mp ht with rfl | ht
    · exact hmem
    · exact hloc t ht

/-- A tag that is relative to the directory of its template leads from that directory. -/
theorem normalize_base_append {raw : String} (hraw : isAbsolute raw.toList = false)
    (path : String) :
    Path.normalize (Path.base path ++ raw) = pathFrom (isAbsolute path.toList)
      (directory (isAbsolute path.toList) path.toList) raw := by
  rw [Path.normalize, Path.base, String.toList_append, String.toList_ofList,
    Path.normalizeChars_eq, Path.isAbsolute_baseChars_append _ hraw,
    Path.location_baseChars_append, pathFrom]

theorem standing_directory (absolute : Bool) (p : List Char) :
    Path.Standing absolute (directory absolute p) :=
  Path.standing_foldl Path.standing_nil fun _ hs =>
    Path.not_mem_of_mem_segments (List.mem_of_mem_dropLast hs)

/-! ## Keys below a key -/

/-- Every tag in the text at an address leads to one of the candidates, and to no new segments. -/
theorem mem_candidates (hext : ¬ Lengthens c.extension.toList)
    (hkey : ∀ s ∈ segments key.toList, s ∈ ls)
    (hspells : Spells ls c place (place.address (c.fetchPath key)) raw)
    (h : (ResolutionContext.ofTemplate c key).resolve? raw = some id) :
    Path.normalize id ∈ candidates ls c place (place.address (c.fetchPath key)) raw ∧
      ∀ s ∈ segments (Path.normalize id).toList, s ∈ ls := by
  -- A path has a normal form with no other segments than its own, if these are known.
  have hnormal : ∀ path : String, (∀ s ∈ segments path.toList, s ∈ ls) →
      ∀ s ∈ segments (Path.normalize path).toList, s ∈ ls := by
    intro path hpath s hs
    rcases mem_segments_normalize hs with hs | rfl | rfl
    · exact hpath s hs
    · exact hspells.empty
    · exact hspells.parent
  rcases Reference.resolve?_cases h with ⟨hdot, rfl⟩ | rfl | ⟨start, hstart, rfl⟩
  · have hraw : isAbsolute raw.toList = false := by
      rw [isAbsolute, hdot]
      decide
    obtain ⟨hdir, hletters⟩ := directory_mem_directories hext hkey hspells
    show Path.normalize (Path.base (c.fetchPath key) ++ raw) ∈ _ ∧
      ∀ s ∈ segments (Path.normalize (Path.base (c.fetchPath key) ++ raw)).toList, s ∈ ls
    rw [normalize_base_append hraw]
    refine ⟨?_, fun s hs => ?_⟩
    · refine List.mem_append_right _ (List.mem_flatMap.mpr ⟨_, ?_, List.mem_map_of_mem hdir⟩)
      cases isAbsolute (c.fetchPath key).toList <;> decide
    · rcases mem_segments_pathFrom (standing_directory _ _) hs with hs | hs | rfl | rfl
      · exact hletters s hs
      · exact hspells.tag s hs
      · exact hspells.empty
      · exact hspells.parent
  · exact ⟨by simp [candidates], hnormal _ hspells.tag⟩
  · have hahead : c.prefix? = some start := hstart
    have hbehind := hspells.behind
    rw [hahead] at hbehind
    exact ⟨by simp [candidates, hahead], hnormal _ hbehind⟩

/-- The letters suffice for all tags in the texts. -/
theorem spells_letters {texts : List (String × String)} {address text : String} (start : String)
    (htext : (address, text) ∈ texts) (hraw : raw ∈ Piece.names (Piece.ofText text)) :
    Spells (letters c place texts start) c place address raw := by
  have htexts : ∀ s, (s ∈ location false (place.relative address) ∨
      s ∈ location true (place.relative address) ∨ s ∈ segments raw.toList ∨
      s ∈ segments (c.prefix?.getD "" ++ raw).toList) → s ∈ letters c place texts start := by
    intro s hs
    refine List.mem_append_right _ (List.mem_flatMap.mpr ⟨_, htext, ?_⟩)
    rcases hs with hs | hs | hs | hs
    · exact List.mem_append_left _ (List.mem_append_left _ hs)
    · exact List.mem_append_left _ (List.mem_append_right _ hs)
    · exact List.mem_append_right _ (List.mem_flatMap.mpr ⟨raw, hraw, List.mem_append_left _ hs⟩)
    · exact List.mem_append_right _ (List.mem_flatMap.mpr ⟨raw, hraw, List.mem_append_right _ hs⟩)
  refine ⟨by simp [letters], by simp [letters], fun s hs => by simp [letters, hs],
    fun absolute s hs => htexts s ?_, fun s hs => htexts s (.inr (.inr (.inl hs))),
    fun s hs => htexts s (.inr (.inr (.inr hs)))⟩
  cases absolute with
  | false => exact .inl hs
  | true => exact .inr (.inl hs)

/-- A partial of a template is one of the candidates of a tag in the text of the template, and it
has no new segments. -/
theorem mem_candidates_of_edge {texts : List (String × String)} {next start : String}
    (hext : ¬ Lengthens c.extension.toList)
    (htexts : ∀ address text, store.text files address = .ok text → (address, text) ∈ texts)
    (hkey : ∀ s ∈ segments key.toList, s ∈ letters c store.place texts start)
    (h : (graph files c store).Edge key next) :
    (∃ address text, (address, text) ∈ texts ∧ ∃ raw ∈ Piece.names (Piece.ofText text),
      next ∈ candidates (letters c store.place texts start) c store.place address raw) ∧
      ∀ s ∈ segments next.toList, s ∈ letters c store.place texts start := by
  obtain ⟨s, hs, r, hr, rfl⟩ := h
  obtain ⟨text, t, htext, ht, rfl⟩ := graph_eq_ok hs
  obtain ⟨hname, hid⟩ := Reference.mem_resolvePartials hr
  obtain ⟨-, rfl⟩ := Template.compile_eq_ok.mp ht
  have hmem := htexts _ _ htext
  obtain ⟨hcandidate, hletters⟩ :=
    mem_candidates hext hkey (spells_letters start hmem hname) hid
  exact ⟨⟨_, text, hmem, r.name, hname, hcandidate⟩, hletters⟩

/-- Only finitely many keys are below a key, unless the extension lengthens names. -/
theorem finite_reaches_of_not_lengthens (hext : ¬ Lengthens c.extension.toList)
    (files : FileSystem) (store : TextStore) (start : String) :
    {k | (graph files c store).Reaches start k}.Finite := by
  obtain ⟨texts, htexts⟩ := store.exists_texts files
  refine (List.finite_toSet (start :: texts.flatMap fun (address, text) =>
    (Piece.names (Piece.ofText text)).flatMap
      (candidates (letters c store.place texts start) c store.place address))).subset ?_
  intro k hk
  have hall : k ∈ start :: texts.flatMap (fun (address, text) =>
      (Piece.names (Piece.ofText text)).flatMap
        (candidates (letters c store.place texts start) c store.place address)) ∧
      ∀ s ∈ segments k.toList, s ∈ letters c store.place texts start := by
    induction hk with
    | refl => exact ⟨List.mem_cons_self, fun s hs => by simp [letters, hs]⟩
    | tail _ hedge ih =>
        obtain ⟨⟨address, text, htext, raw, hraw, hnext⟩, hletters⟩ :=
          mem_candidates_of_edge hext htexts ih.2 hedge
        refine ⟨List.mem_cons_of_mem _ (List.mem_flatMap.mpr ⟨_, htext, ?_⟩), hletters⟩
        exact List.mem_flatMap.mpr ⟨raw, hraw, hnext⟩
  exact hall.1

end Loader

end Stencil
