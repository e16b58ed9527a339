import LineBasic.FileStore
import LineBasic.Proofs.Results

/-!
# Where the paths given to a folder lead

A folder takes paths from its root: slashes at their start mean nothing, and backslashes are slashes.
A path that never leads above its start therefore stays in the root folder.  As `..` is left for the
host to follow, a path can also lead up, out of the root folder; it is inside again only if it leads
back down by the names that it left.

* `follow` — where names lead, if nothing on the way is missing.
* `course` — how far up names lead, and from there down.
* `follow_eq` — the two agree.
* `Disk.walk_eq_ok`, `Disk.write_spec` — what is read and written is where the names lead.
* `Folder.confined` — the result.
-/

set_option autoImplicit false
namespace LineBasic

/-! ## Following names -/

/-- The place that names lead to, whether or not anything stands there. -/
def follow (here : Place) : List String → Place
  | [] => here
  | name :: names =>
    if name = ".." then follow here.dropLast names
    else if name = "." ∨ name = "" then follow here names
    else follow (here ++ [name]) names

/-- How far names lead up, and the names down from there, after having led the given way. -/
def course (up : Nat) (down : Place) : List String → Nat × Place
  | [] => (up, down)
  | name :: names =>
    if name = ".." then
      if down = [] then course (up + 1) [] names else course up down.dropLast names
    else if name = "." ∨ name = "" then course up down names
    else course up (down ++ [name]) names

theorem follow_append (here : Place) (names names' : List String) :
    follow here (names ++ names') = follow (follow here names) names' := by
  fun_induction follow here names with
  | case1 here => rfl
  | case2 here names ih => rw [List.cons_append, follow, if_pos rfl, ih]
  | case3 here name names hup hstay ih => rw [List.cons_append, follow, if_neg hup, if_pos hstay, ih]
  | case4 here name names hup hstay ih => rw [List.cons_append, follow, if_neg hup, if_neg hstay, ih]

theorem follow_empty (here : Place) (names : List String) :
    follow here ("" :: names) = follow here names := by
  rw [follow, if_neg (by decide), if_pos (.inr rfl)]

theorem dropLast_take_sub (here : Place) (up : Nat) :
    (here.take (here.length - up)).dropLast = here.take (here.length - (up + 1)) := by
  rw [List.dropLast_eq_take, List.length_take, List.take_take]
  congr 1
  omega

/-- Names lead up as far as their course does, and down from there. -/
theorem follow_eq (here : Place) (up : Nat) (down : Place) (names : List String) :
    follow (here.take (here.length - up) ++ down) names =
      here.take (here.length - (course up down names).1) ++ (course up down names).2 := by
  fun_induction course up down names with
  | case1 up down => rfl
  | case2 up names ih =>
    rw [follow, if_pos rfl, List.append_nil, dropLast_take_sub, ← ih, List.append_nil]
  | case3 up down names hdown ih =>
    rw [follow, if_pos rfl, List.dropLast_append_of_ne_nil hdown, ih]
  | case4 up down name names hup hstay ih => rw [follow, if_neg hup, if_pos hstay, ih]
  | case5 up down name names hup hstay ih =>
    rw [follow, if_neg hup, if_neg hstay, List.append_assoc, ih]

theorem le_course (up : Nat) (down : Place) (names : List String) :
    up ≤ (course up down names).1 := by
  fun_induction course up down names with
  | case1 => exact Nat.le_refl _
  | case2 up names ih => exact Nat.le_of_succ_le ih
  | case3 _ _ _ _ ih => exact ih
  | case4 _ _ _ _ _ _ ih => exact ih
  | case5 _ _ _ _ _ _ ih => exact ih

theorem course_append (up : Nat) (down : Place) (names names' : List String) :
    course up down (names ++ names') =
      course (course up down names).1 (course up down names).2 names' := by
  fun_induction course up down names with
  | case1 => rfl
  | case2 up names ih => rw [List.cons_append, course, if_pos rfl, if_pos rfl, ih]
  | case3 up down names hdown ih => rw [List.cons_append, course, if_pos rfl, if_neg hdown, ih]
  | case4 up down name names hup hstay ih =>
    rw [List.cons_append, course, if_neg hup, if_pos hstay, ih]
  | case5 up down name names hup hstay ih =>
    rw [List.cons_append, course, if_neg hup, if_neg hstay, ih]

/-- The start of a way does not lead further up than all of it. -/
theorem course_le_of_isPrefix {way names : List String} (h : way <+: names) :
    (course 0 [] way).1 ≤ (course 0 [] names).1 := by
  obtain ⟨rest, rfl⟩ := h
  rw [course_append]
  exact le_course ..

/-- Names that lead up lead to a place inside if and only if they lead back down the same way. -/
theorem prefix_follow_iff (here : Place) (names : List String) :
    here <+: follow here names ↔
      here.drop (here.length - (course 0 [] names).1) <+: (course 0 [] names).2 := by
  have hfollow := follow_eq here 0 [] names
  rw [Nat.sub_zero, List.take_length, List.append_nil] at hfollow
  have hsplit := List.take_append_drop (here.length - (course 0 [] names).1) here
  calc here <+: follow here names
      ↔ here.take (here.length - (course 0 [] names).1) ++
          here.drop (here.length - (course 0 [] names).1) <+: follow here names := by rw [hsplit]
    _ ↔ here.drop (here.length - (course 0 [] names).1) <+: (course 0 [] names).2 := by
      rw [hfollow]
      exact List.prefix_append_right_inj _

theorem prefix_follow (here : Place) {names : List String} (h : (course 0 [] names).1 = 0) :
    here <+: follow here names := by
  rw [prefix_follow_iff, h, Nat.sub_zero, List.drop_length]
  exact List.nil_prefix

/-! ## Walking -/

namespace Disk

variable {d d' : Disk} {start here place q : Place} {names : List String} {e : Entry}

/-- A walk ends where its names lead. -/
theorem walk_eq_ok (h : d.walk here names = .ok (place, e)) :
    place = follow here names ∧ d.get? place = some e := by
  fun_induction walk d here names with
  | case1 here e' heq =>
    cases h
    exact ⟨rfl, heq⟩
  | case2 => cases h
  | case3 => cases h
  | case4 => cases h
  | case5 here names hfolder ih => rw [follow, if_pos rfl]; exact ih h
  | case6 here name names hfolder hup hstay ih => rw [follow, if_neg hup, if_pos hstay]; exact ih h
  | case7 => cases h
  | case8 here name names hfolder hup hstay hlong ih =>
    rw [follow, if_neg hup, if_neg hstay]; exact ih h

theorem find?_eq_some (h : d.find? start names = .ok (some (place, e))) :
    place = follow start names ∧ d.get? place = some e := by
  unfold find? at h
  split at h
  · rename_i hfind
    cases h
    unfold find at hfind
    split at hfind
    · cases hfind
    · split at hfind
      · cases hfind
      · exact walk_eq_ok hfind
  · cases h
  · cases h

theorem read?_eq_some {text : String} (h : d.read? start names = .ok (some text)) :
    d.get? (follow start names) = some (.file text) := by
  obtain ⟨found, hfound, h⟩ := bind_eq_ok.1 h
  split at h
  · cases h
    obtain ⟨rfl, hentry⟩ := find?_eq_some hfound
    exact hentry
  · cases h

theorem list?_eq_some {listed : List String} (h : d.list? start names = .ok (some listed)) :
    d.get? (follow start names) = some .folder := by
  obtain ⟨found, hfound, h⟩ := bind_eq_ok.1 h
  split at h
  · cases h
    obtain ⟨rfl, hentry⟩ := find?_eq_some hfound
    exact hentry
  · cases h

theorem get?_put_of_ne (h : q ≠ place) : (d.put place e).get? q = d.get? q := by
  rw [get?, get?, put, Table.get?_insert_of_ne _ _ h]

theorem lastPlace_eq_some (h : d.lastPlace start names = .ok (some place)) (hdot : "." ∉ names) :
    place = follow start names ∧ place ≠ [] := by
  unfold lastPlace at h
  split at h
  · cases h
  · rename_i last hlast
    split at h
    · cases h
    split at h
    · cases h
    split at h
    · cases h
    · cases h
    rename_i here hwalk
    split at h
    · cases h
    rename_i hnamed
    split at h
    · cases h
    cases h
    obtain ⟨before, rfl⟩ := List.getLast?_eq_some_iff.1 hlast
    rw [List.dropLast_concat] at hwalk
    have hnamed' : ¬ (last = "." ∨ last = "") := by
      rintro (rfl | rfl)
      · exact hdot (by simp)
      · exact hnamed (.inr rfl)
    rw [follow_append, ← (walk_eq_ok hwalk).1, follow, if_neg fun hup ↦ hnamed (.inl hup),
      if_neg hnamed', follow]
    exact ⟨rfl, by simp⟩

theorem get?_makeFolder (h : d.makeFolder start names = .ok d') (hdot : "." ∉ names)
    (hq : q ≠ follow start names) : d'.get? q = d.get? q := by
  unfold makeFolder at h
  split at h
  · cases h
  · cases h
  · rename_i place hplace
    split at h
    · cases h
    · cases h
      exact get?_put_of_ne ((lastPlace_eq_some hplace hdot).1 ▸ hq)

/-- The folders that are made are on the way of the names. -/
theorem get?_makeFolders (before : List String) (d : Disk) (hdot : "." ∉ before)
    (hq : ∀ way, way <+: before.reverse → q ≠ follow start way) :
    (makeFolders start before d).1.get? q = d.get? q := by
  induction before generalizing d with
  | nil => rfl
  | cons last before ih =>
    rw [List.mem_cons, not_or] at hdot
    rw [List.reverse_cons] at hq
    have hdot' : "." ∉ before.reverse ++ [last] := by
      simpa [hdot.2, eq_comm] using hdot.1
    have hbefore : ∀ d, (if before.isEmpty || d.isThere start before.reverse then (d, .ok ())
        else makeFolders start before d).1.get? q = d.get? q := fun d ↦ by
      split
      · rfl
      · exact ih d hdot.2 fun way hway ↦ hq way (hway.trans (List.prefix_append ..))
    rw [makeFolders]
    generalize hr : (if before.isEmpty || d.isThere start before.reverse then (d, .ok ())
      else makeFolders start before d) = r
    have hr := congrArg (fun r ↦ r.1.get? q) hr
    obtain ⟨d₁, made⟩ := r
    have h₁ : d₁.get? q = d.get? q := hr.symm.trans (hbefore d)
    have hmade : ∀ d₂, d₁.makeFolder start (before.reverse ++ [last]) = .ok d₂ →
        d₂.get? q = d.get? q := fun d₂ h ↦
      (get?_makeFolder h hdot' (hq _ (List.prefix_refl _))).trans h₁
    simp only
    split
    · split
      · exact hmade _ ‹_›
      · exact h₁
      · exact h₁
    · split
      · exact hmade _ ‹_›
      · exact h₁
      · exact h₁
    · exact h₁

theorem writeFile_eq_ok {text : String} (h : d.writeFile start names text = .ok d')
    (hdot : "." ∉ names) :
    d'.get? (follow start names) = some (.file text) ∧
      ∀ q, q ≠ follow start names → d'.get? q = d.get? q := by
  unfold writeFile at h
  split at h
  · cases h
  · cases h
  rename_i place hplace
  obtain ⟨rfl, hne⟩ := lastPlace_eq_some hplace hdot
  split at h
  · cases h
  · cases h
    exact ⟨by rw [get?, if_neg hne, put, Table.get?_insert_self], fun q hq ↦ get?_put_of_ne hq⟩

/-- A text is written to where the names lead, and nothing else changes but on the way there. -/
theorem write_spec (d : Disk) (start : Place) (text : String) (hdot : "." ∉ names) :
    ((d.write start names text).2 = .ok () →
      (d.write start names text).1.get? (follow start names) = some (.file text)) ∧
    ∀ q, (∀ way, way <+: names → q ≠ follow start way) →
      (d.write start names text).1.get? q = d.get? q := by
  have hdot' : "." ∉ names.dropLast.reverse := fun hmem ↦
    hdot (List.dropLast_subset _ (List.mem_reverse.1 hmem))
  have hmade : ∀ q, (∀ way, way <+: names → q ≠ follow start way) →
      (makeFolders start names.dropLast.reverse d).1.get? q = d.get? q := fun q hq ↦
    get?_makeFolders _ d hdot' fun way hway ↦
      hq way ((List.reverse_reverse names.dropLast ▸ hway).trans (List.dropLast_prefix _))
  unfold write
  generalize hr : makeFolders start names.dropLast.reverse d = r at hmade
  obtain ⟨d₁, made⟩ := r
  simp only
  split
  · exact ⟨nofun, hmade⟩
  · split
    · rename_i d₂ hwrite
      obtain ⟨hthere, hothers⟩ := writeFile_eq_ok hwrite hdot
      exact ⟨fun _ ↦ hthere, fun q hq ↦
        (hothers q (hq names (List.prefix_refl _))).trans (hmade q hq)⟩
    · exact ⟨nofun, hmade⟩

end Disk

/-! ## Folders -/

namespace Folder

/-- The names of the path of a folder. -/
def rootNames (f : Folder) : List String :=
  pathNames f.root.toList

/-- The place of the folder. -/
def rootPlace (f : Folder) : Place :=
  follow f.start f.rootNames

/-- The names that a path given to a folder is taken for. -/
def innerNames (path : String) : List String :=
  pathNames ((forwardSlashes path).dropWhile (· == '/'))

/-- The place that a path given to a folder leads to. -/
def place (f : Folder) (path : String) : Place :=
  follow f.start (f.resolve path)

/-- How far above its start a path given to a folder leads. -/
def climb (path : String) : Nat :=
  (course 0 [] (innerNames path)).1

/-- The names that a path given to a folder leads down from there. -/
def descent (path : String) : Place :=
  (course 0 [] (innerNames path)).2

variable {f : Folder} {path : String}

theorem dot_notMem_pathNames (cs : List Char) : "." ∉ pathNames cs := by
  simp [pathNames]

theorem dot_notMem_resolve (f : Folder) (path : String) : "." ∉ f.resolve path := by
  have hinner := dot_notMem_pathNames ((forwardSlashes path).dropWhile (· == '/'))
  have hroot := dot_notMem_pathNames f.root.toList
  unfold resolve
  simp only
  split <;> simp [hroot, hinner]

/-- The path of the folder comes first, so a path given to it is followed from the folder. -/
theorem follow_of_prefix_resolve {way : List String} (h : way <+: f.resolve path) :
    (∃ out, out <+: f.rootNames ∧ follow f.start way = follow f.start out) ∨
      ∃ inner, inner <+: innerNames path ∧ follow f.start way = follow f.rootPlace inner := by
  have hplain : ∀ way, way <+: f.rootNames ++ innerNames path →
      (∃ out, out <+: f.rootNames ∧ follow f.start way = follow f.start out) ∨
        ∃ inner, inner <+: innerNames path ∧ follow f.start way = follow f.rootPlace inner := by
    intro way h
    obtain ⟨rest, hrest⟩ := h
    obtain ⟨more, hmore, -⟩ | ⟨inner, rfl, hinner⟩ := List.append_eq_append_iff.1 hrest
    · exact .inl ⟨way, ⟨more, hmore.symm⟩, rfl⟩
    · exact .inr ⟨inner, ⟨rest, hinner.symm⟩, follow_append ..⟩
  unfold resolve at h
  simp only at h
  split at h
  · obtain rfl | ⟨way, rfl, hway⟩ := List.prefix_cons_iff.1 h
    · exact .inl ⟨[], List.nil_prefix, rfl⟩
    · rw [follow_empty]
      exact hplain way hway
  · exact hplain way h

theorem place_eq (f : Folder) (path : String) :
    f.place path = follow f.rootPlace (innerNames path) := by
  unfold place resolve
  simp only
  split
  · rw [follow_empty, follow_append]
    rfl
  · rw [follow_append]
    rfl

/-- A path given to a folder leads to a place inside if and only if it leads back down by the names
by which it led up; so it does if it never leads above its start.  What is read and listed is what
stands at the place.  A text is written there, and all else that a path inside changes is inside, or
on the way to the folder. -/
theorem confined (f : Folder) (path : String) :
    (f.rootPlace <+: f.place path ↔
      f.rootPlace.drop (f.rootPlace.length - climb path) <+: descent path) ∧
    (climb path = 0 → f.rootPlace <+: f.place path) ∧
    (∀ text, f.read path = .ok (some text) →
      ∃ raw, f.disk.get? (f.place path) = some (.file raw) ∧ text = Text.asRead raw) ∧
    (∀ names, f.list path = .ok (some names) → f.disk.get? (f.place path) = some .folder) ∧
    ∀ text,
      ((f.write path text).2 = .ok () →
        (f.write path text).1.disk.get? (f.place path) = some (.file text)) ∧
      ∀ q, (f.write path text).1.disk.get? q ≠ f.disk.get? q → climb path = 0 →
        f.rootPlace <+: q ∨ ∃ out, out <+: f.rootNames ∧ q = follow f.start out := by
  refine ⟨?_, fun hclimb ↦ ?_, fun text h ↦ ?_, fun names h ↦ ?_, fun text ↦ ⟨fun h ↦ ?_, ?_⟩⟩
  · rw [place_eq]
    exact prefix_follow_iff ..
  · rw [place_eq]
    exact prefix_follow _ hclimb
  · obtain ⟨found, hfound, h⟩ := bind_eq_ok.1 h
    cases found with
    | none => cases h
    | some raw =>
      cases h
      exact ⟨raw, Disk.read?_eq_some hfound, rfl⟩
  · exact Disk.list?_eq_some h
  · exact (Disk.write_spec f.disk f.start text (dot_notMem_resolve f path)).1 h
  · intro q hchanged hclimb
    refine Classical.byContradiction fun hout ↦ ?_
    rw [not_or, not_exists] at hout
    refine hchanged ((Disk.write_spec f.disk f.start text (dot_notMem_resolve f path)).2 q ?_)
    rintro way hway rfl
    obtain ⟨out, hleads, heq⟩ | ⟨inner, hleads, heq⟩ := follow_of_prefix_resolve hway
    · exact hout.2 out ⟨hleads, heq⟩
    · refine hout.1 (heq ▸ prefix_follow _ (Nat.le_zero.1 ?_))
      exact Nat.le_trans (course_le_of_isPrefix hleads) (Nat.le_of_eq hclimb)

/-- A path inside that has backslashes, and leads down, up and down again. -/
theorem confined_backslashes :
    let f : Folder := { root := "srv", disk := ⟨⟨[(["srv"], .folder), (["srv", "a"], .folder),
      (["srv", "b"], .file "10 END\r\n")]⟩⟩ }
    let path := "/a\\..\\b"
    (climb path = 0 ∧ f.rootPlace = ["srv"] ∧ f.rootPlace <+: f.place path) ∧
    (f.read path = .ok (some "10 END\n") ∧
      ∃ raw, f.disk.get? (f.place path) = some (.file raw) ∧ "10 END\n" = Text.asRead raw) ∧
    (f.list "a" = .ok (some []) ∧ f.disk.get? (f.place "a") = some .folder) ∧
    ((f.write path "20 END").2 = .ok () ∧
      (f.write path "20 END").1.disk.get? (f.place path) = some (.file "20 END")) ∧
    ((f.write path "20 END").1.disk.get? ["srv", "b"] ≠ f.disk.get? ["srv", "b"] ∧
      (f.rootPlace <+: ["srv", "b"] ∨ ∃ out, out <+: f.rootNames ∧
        ["srv", "b"] = follow f.start out)) := by
  intro f path
  have hclimb : climb path = 0 := by decide +kernel
  have hread : f.read path = .ok (some "10 END\n") := by decide +kernel
  have hlist : f.list "a" = .ok (some []) := by decide +kernel
  have hwrite : (f.write path "20 END").2 = .ok () := by decide +kernel
  have hchanged : (f.write path "20 END").1.disk.get? ["srv", "b"] ≠ f.disk.get? ["srv", "b"] := by
    decide +kernel
  obtain ⟨-, hinside, hreads, -, hwrites⟩ := confined f path
  exact ⟨⟨hclimb, by decide +kernel, hinside hclimb⟩, ⟨hread, hreads _ hread⟩,
    ⟨hlist, (confined f "a").2.2.2.1 _ hlist⟩, ⟨hwrite, (hwrites _).1 hwrite⟩,
    ⟨hchanged, (hwrites _).2 _ hchanged hclimb⟩⟩

/-- A path that starts by leading up leaves the folder. -/
theorem not_forall_confined :
    ¬ ∀ (f : Folder) (path : String), f.rootPlace <+: f.place path := by
  intro hall
  have hroot : ({ root := "srv" } : Folder).rootPlace = ["srv"] := by decide +kernel
  have hplace : ({ root := "srv" } : Folder).place "../secret" = ["secret"] := by decide +kernel
  have hinside := hall { root := "srv" } "../secret"
  rw [hroot, hplace] at hinside
  exact absurd hinside (by decide)

end Folder

end LineBasic
