/-
Changes of a file system.

A file system changes in two ways: a directory is made where nothing was, and a file is written
into a directory that is there.  Either way what was there stays.  The first change leaves all
files as they are, and the second one changes the bytes at one place.
-/
import Mathlib
import Stencil.Files.Tree
import Stencil.Proofs.Dict

namespace Stencil

namespace FileTree

theorem at?_cons (t : FileTree) (name : String) (rest : List String) :
    t.at? (name :: rest) = (t.entries.get? name).bind fun below => below.at? rest := by
  rw [at?]
  cases t.entries.get? name <;> rfl

theorem at?_append (t : FileTree) (names more : List String) :
    t.at? (names ++ more) = (t.at? names).bind fun below => below.at? more := by
  induction names generalizing t with
  | nil => rfl
  | cons name names ih =>
      rw [List.cons_append, at?_cons, at?_cons]
      cases t.entries.get? name with
      | none => rfl
      | some below => exact ih below

theorem at?_put_append (new t : FileTree) (names more : List String) :
    (put new names t).at? (names ++ more) = new.at? more := by
  induction names generalizing t with
  | nil => rfl
  | cons name names ih =>
      rw [put, List.cons_append, at?_cons, entries, Dict.get?_insert_self]
      exact ih _

/-- On the way to a tree that was put somewhere there are directories, each with one entry that is
put in. -/
theorem exists_at?_put (new t : FileTree) (names : List String) (name : String)
    (more : List String) :
    ∃ below, (put new (names ++ name :: more) t).at? names =
      some (directory ((((t.at? names).map entries).getD []).insert name below)) := by
  induction names generalizing t with
  | nil => exact ⟨_, rfl⟩
  | cons first names ih =>
      obtain ⟨below, hbelow⟩ := ih ((t.entries.get? first).getD (directory []))
      refine ⟨below, ?_⟩
      rw [List.cons_append, put, at?_cons, FileTree.entries, Dict.get?_insert_self,
        Option.bind_some, hbelow, at?_cons]
      cases t.entries.get? first with
      | some t' => rfl
      | none => cases names <;> rfl

/-- Away from the way to a tree that was put somewhere, everything is as before. -/
theorem at?_put_elsewhere (new t : FileTree) {names names' : List String}
    (h : ¬ names <+: names') (h' : ¬ names' <+: names) :
    (put new names t).at? names' = t.at? names' := by
  induction names generalizing t names' with
  | nil => exact absurd List.nil_prefix h
  | cons name names ih =>
      cases names' with
      | nil => exact absurd List.nil_prefix h'
      | cons name' names' =>
          rw [put, at?_cons, at?_cons, entries, Dict.get?_insert]
          by_cases hname : name = name'
          · subst hname
            have hbelow := ih ((t.entries.get? name).getD (directory []))
              (fun hp => h (List.cons_prefix_cons.mpr ⟨rfl, hp⟩))
              (fun hp => h' (List.cons_prefix_cons.mpr ⟨rfl, hp⟩))
            rw [if_pos rfl, Option.bind_some, hbelow]
            cases t.entries.get? name with
            | some below => rfl
            | none =>
                cases names' with
                | nil => exact absurd (List.cons_prefix_cons.mpr ⟨rfl, List.nil_prefix⟩) h'
                | cons => rfl
          · rw [if_neg hname]

theorem size_lt_of_get? {name : String} {entries : Dict FileTree} {t : FileTree}
    (h : Dict.get? name entries = some t) : t.size < (directory entries).size := by
  rw [size]
  induction entries with
  | nil => cases h
  | cons entry entries ih =>
      obtain ⟨key, first⟩ := entry
      rw [Dict.get?_cons] at h
      rw [sizes]
      split at h
      · cases h
        omega
      · have := ih h
        omega

/-- A tree is not deeper than its size. -/
theorem length_lt_size {t : FileTree} {names : List String} (h : (t.at? names).isSome) :
    names.length < t.size := by
  induction names generalizing t with
  | nil => cases t <;> rw [size, List.length_nil] <;> omega
  | cons name names ih =>
      rw [at?_cons] at h
      cases t with
      | file content => cases h
      | directory entries =>
          cases hget : Dict.get? name entries with
          | none =>
              rw [FileTree.entries, hget] at h
              cases h
          | some below =>
              rw [FileTree.entries, hget] at h
              have hbelow := ih h
              have hsize := size_lt_of_get? hget
              rw [List.length_cons]
              omega

end FileTree

namespace FileSystem

variable {fs fs' fs'' : FileSystem} {place above more : List String} {name : String}

/-- A file system with a tree put at a place. -/
def withAt (fs : FileSystem) (place : List String) (t : FileTree) : FileSystem :=
  { fs with root := FileTree.put t place fs.root }

/-- The bytes of the file at a place. -/
def bytes? (fs : FileSystem) (place : List String) : Option ByteArray :=
  match fs.at? place with
  | some (.file content) => some content
  | _ => none

/-- A later file system: what was there is there, and directories are still directories. -/
structure Extends (fs fs' : FileSystem) : Prop where
  workDir : fs'.workDir = fs.workDir
  directory : ∀ place, fs.isDirectoryAt place → fs'.isDirectoryAt place
  holds : ∀ place, (fs.at? place).isSome → (fs'.at? place).isSome

theorem Extends.refl : Extends fs fs := ⟨rfl, fun _ h => h, fun _ h => h⟩

theorem Extends.trans (h : Extends fs fs') (h' : Extends fs' fs'') : Extends fs fs'' :=
  ⟨h'.workDir.trans h.workDir, fun place hp => h'.directory place (h.directory place hp),
    fun place hp => h'.holds place (h.holds place hp)⟩

/-! ## Places -/

theorem isDirectoryAt_iff :
    fs.isDirectoryAt place ↔ ∃ entries, fs.at? place = some (.directory entries) := by
  rw [isDirectoryAt]
  cases fs.at? place with
  | none => simp
  | some t => cases t <;> simp [FileTree.isDirectory]

/-- What leads further is a directory. -/
theorem isDirectoryAt_of_isSome (h : (fs.at? (place ++ name :: more)).isSome) :
    fs.isDirectoryAt place := by
  rw [at?, FileTree.at?_append] at h
  rw [isDirectoryAt, at?]
  cases hplace : fs.root.at? place with
  | none =>
      rw [hplace] at h
      cases h
  | some t =>
      rw [hplace, Option.bind_some, FileTree.at?_cons] at h
      cases t with
      | file content => cases h
      | directory entries => rfl

theorem isDirectoryAt_of_append (h : fs.isDirectoryAt (place ++ more)) :
    fs.isDirectoryAt place := by
  cases more with
  | nil => rwa [List.append_nil] at h
  | cons name more =>
      obtain ⟨entries, hentries⟩ := isDirectoryAt_iff.mp h
      have hsome : (fs.at? (place ++ name :: more)).isSome := by
        rw [hentries]
        rfl
      exact isDirectoryAt_of_isSome hsome

theorem isSome_of_isDirectoryAt (h : fs.isDirectoryAt place) : (fs.at? place).isSome := by
  obtain ⟨entries, hentries⟩ := isDirectoryAt_iff.mp h
  rw [hentries]
  rfl

theorem isSome_of_append (h : (fs.at? (place ++ more)).isSome) : (fs.at? place).isSome := by
  cases more with
  | nil => rwa [List.append_nil] at h
  | cons name more => exact isSome_of_isDirectoryAt (isDirectoryAt_of_isSome h)

theorem at?_append_of_directory {entries : Dict FileTree}
    (h : fs.at? place = some (.directory entries)) (name : String) (names : List String) :
    fs.at? (place ++ name :: names) =
      (Dict.get? name entries).bind fun below => below.at? names := by
  rw [at?] at h ⊢
  rw [FileTree.at?_append, h, Option.bind_some, FileTree.at?_cons]
  rfl

/-- Where a place is in relation to one in a directory: it goes on from there, it is on the way
there, or it is elsewhere. -/
theorem place_cases (above : List String) (name : String) (place : List String) :
    (∃ more, place = (above ++ [name]) ++ more) ∨ (∃ more, above = place ++ more) ∨
      (¬ above ++ [name] <+: place ∧ ¬ place <+: above ++ [name]) := by
  by_cases h : above ++ [name] <+: place
  · obtain ⟨more, rfl⟩ := h
    exact .inl ⟨more, rfl⟩
  · by_cases h' : place <+: above ++ [name]
    · rcases List.prefix_concat_iff.mp h' with rfl | ⟨more, rfl⟩
      · exact absurd (List.prefix_refl _) h
      · exact .inr (.inl ⟨more, rfl⟩)
    · exact .inr (.inr ⟨h, h'⟩)

/-! ## One change -/

theorem at?_withAt_append (fs : FileSystem) (place more : List String) (t : FileTree) :
    (fs.withAt place t).at? (place ++ more) = t.at? more := FileTree.at?_put_append _ _ _ _

/-- On the way to what is put somewhere there are directories, each with one entry that is put
in. -/
theorem exists_at?_withAt (fs : FileSystem) (place more : List String) (name : String)
    (t : FileTree) :
    ∃ first below, (fs.withAt ((place ++ more) ++ [name]) t).at? place =
      some (.directory ((((fs.at? place).map FileTree.entries).getD []).insert first below)) := by
  cases more with
  | nil =>
      rw [List.append_nil]
      exact ⟨name, FileTree.exists_at?_put t fs.root place name []⟩
  | cons first more =>
      rw [List.append_assoc]
      exact ⟨first, FileTree.exists_at?_put t fs.root place first (more ++ [name])⟩

theorem isDirectoryAt_withAt (fs : FileSystem) (place more : List String) (name : String)
    (t : FileTree) : (fs.withAt ((place ++ more) ++ [name]) t).isDirectoryAt place := by
  obtain ⟨first, below, hplace⟩ := exists_at?_withAt fs place more name t
  exact isDirectoryAt_iff.mpr ⟨_, hplace⟩

theorem at?_withAt_elsewhere (fs : FileSystem) (t : FileTree) {place place' : List String}
    (h : ¬ place <+: place') (h' : ¬ place' <+: place) :
    (fs.withAt place t).at? place' = fs.at? place' := FileTree.at?_put_elsewhere _ _ h h'

/-- Putting a tree where no directory was, in one that is there, takes nothing away. -/
theorem extends_withAt (habove : fs.isDirectoryAt above)
    (hplace : ¬ fs.isDirectoryAt (above ++ [name])) (t : FileTree) :
    Extends fs (fs.withAt (above ++ [name]) t) := by
  refine ⟨rfl, fun place hp => ?_, fun place hp => ?_⟩
  · rcases place_cases above name place with ⟨more, rfl⟩ | ⟨more, rfl⟩ | ⟨h, h'⟩
    · exact absurd (isDirectoryAt_of_append hp) hplace
    · exact isDirectoryAt_withAt fs place more name t
    · rw [isDirectoryAt, at?_withAt_elsewhere fs t h h']
      exact hp
  · rcases place_cases above name place with ⟨more, rfl⟩ | ⟨more, rfl⟩ | ⟨h, h'⟩
    · cases more with
      | nil =>
          rw [at?_withAt_append]
          rfl
      | cons first more => exact absurd (isDirectoryAt_of_isSome hp) hplace
    · obtain ⟨entries, hentries⟩ := isDirectoryAt_iff.mp (isDirectoryAt_withAt fs place more name t)
      rw [hentries]
      rfl
    · rw [at?_withAt_elsewhere fs t h h']
      exact hp

/-- Where nothing is below what was put somewhere, that is all that is new. -/
theorem isSome_withAt {t : FileTree} (habove : fs.isDirectoryAt above)
    (hleaf : ∀ first rest, t.at? (first :: rest) = none)
    (h : ((fs.withAt (above ++ [name]) t).at? place).isSome) :
    (fs.at? place).isSome ∨ place = above ++ [name] := by
  rcases place_cases above name place with ⟨more, rfl⟩ | ⟨more, rfl⟩ | ⟨hnot, hnot'⟩
  · cases more with
    | nil => exact .inr (List.append_nil _)
    | cons first rest =>
        rw [at?_withAt_append, hleaf] at h
        cases h
  · exact .inl (isSome_of_isDirectoryAt (isDirectoryAt_of_append habove))
  · rw [at?_withAt_elsewhere fs t hnot hnot'] at h
    exact .inl h

/-- A new directory changes no file. -/
theorem bytes?_withAt_directory (habove : fs.isDirectoryAt above)
    (hplace : fs.at? (above ++ [name]) = none) (place : List String) :
    (fs.withAt (above ++ [name]) (.directory [])).bytes? place = fs.bytes? place := by
  rcases place_cases above name place with ⟨more, rfl⟩ | ⟨more, rfl⟩ | ⟨h, h'⟩
  · have hnone : fs.at? ((above ++ [name]) ++ more) = none := by
      rw [at?, FileTree.at?_append]
      rw [at?] at hplace
      rw [hplace]
      rfl
    rw [bytes?, bytes?, at?_withAt_append, hnone]
    cases more <;> rfl
  · obtain ⟨entries, hentries⟩ :=
      isDirectoryAt_iff.mp (isDirectoryAt_withAt fs place more name (.directory []))
    obtain ⟨entries', hentries'⟩ := isDirectoryAt_iff.mp (isDirectoryAt_of_append habove)
    rw [bytes?, bytes?, hentries, hentries']
  · rw [bytes?, bytes?, at?_withAt_elsewhere fs _ h h']

/-- A file that is written changes the bytes at its place and no others. -/
theorem bytes?_withAt_file (habove : fs.isDirectoryAt above)
    (hplace : ¬ fs.isDirectoryAt (above ++ [name])) (content : ByteArray) :
    (fs.withAt (above ++ [name]) (.file content)).bytes? =
      Function.update fs.bytes? (above ++ [name]) (some content) := by
  funext place
  rcases place_cases above name place with ⟨more, rfl⟩ | ⟨more, rfl⟩ | ⟨h, h'⟩
  · cases more with
    | nil =>
        rw [List.append_nil, Function.update_self, bytes?]
        have hself := at?_withAt_append fs (above ++ [name]) [] (.file content)
        rw [List.append_nil] at hself
        rw [hself]
        rfl
    | cons first more =>
        have hne : (above ++ [name]) ++ first :: more ≠ above ++ [name] := by
          intro heq
          have hlength := congrArg List.length heq
          simp only [List.length_append, List.length_cons] at hlength
          omega
        have hnone : fs.at? ((above ++ [name]) ++ first :: more) = none := by
          rw [← Option.not_isSome_iff_eq_none]
          exact fun hsome => hplace (isDirectoryAt_of_isSome hsome)
        rw [Function.update_of_ne hne, bytes?, bytes?, at?_withAt_append, hnone]
        rfl
  · have hne : place ≠ (place ++ more) ++ [name] := by
      intro heq
      have hlength := congrArg List.length heq
      simp only [List.length_append, List.length_singleton] at hlength
      omega
    obtain ⟨entries, hentries⟩ :=
      isDirectoryAt_iff.mp (isDirectoryAt_withAt fs place more name (.file content))
    obtain ⟨entries', hentries'⟩ := isDirectoryAt_iff.mp (isDirectoryAt_of_append habove)
    rw [Function.update_of_ne hne, bytes?, bytes?, hentries, hentries']
  · have hne : place ≠ above ++ [name] := by
      rintro rfl
      exact h (List.prefix_refl _)
    rw [Function.update_of_ne hne, bytes?, bytes?, at?_withAt_elsewhere fs _ h h']

end FileSystem

end Stencil
