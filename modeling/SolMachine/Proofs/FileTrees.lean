import SolMachine.Tool.World

/-!
# Files in a tree

* `FileTree.find?_insert`, `FileTree.find?_erase` : what is found after a file was added or removed;
* `FileTree.Differs` : two trees have the same entries but for one place, where the second one has a
  given entry or none;
* `FileTree.Differs.walk` : where no directory is, an entry does not matter to where ways lead;
* `FileTree.creatable_eq_ok_iff` : where a file can be created; `FileTree.target_of_creatable` : its path
  leads to that place whatever is put there, so that the file can be created again
  (`FileTree.creatable_insert`), read (`FileTree.readText_insert`) and removed
  (`FileTree.remove_insert`).
-/

namespace SolMachine.FileTree

/-! ## Finding entries -/

section Lookup
variable {entries : List (List String × Entry)} {place p : List String}

theorem lookup_cons_eq (e : Entry) :
    ((place, e) :: entries).lookup p = if p = place then some e else entries.lookup p := by
  rw [List.lookup_cons]
  split
  · next h => rw [if_pos (eq_of_beq h)]
  · next h => rw [if_neg (ne_of_beq_false h)]

theorem lookup_filter_ne :
    (entries.filter fun q => q.1 != place).lookup p =
      if p = place then none else entries.lookup p := by
  induction entries with
  | nil => split <;> rfl
  | cons q entries ih =>
    obtain ⟨k, e⟩ := q
    by_cases hk : k = place
    · rw [List.filter_cons_of_neg (by simp [hk]), ih, lookup_cons_eq, hk]
      split <;> rfl
    · rw [List.filter_cons_of_pos (by simpa using hk), lookup_cons_eq, lookup_cons_eq, ih]
      by_cases hp : p = k
      · have hne : p ≠ place := hp ▸ hk
        rw [if_pos hp, if_neg hne, if_pos hp]
      · rw [if_neg hp, if_neg hp]

end Lookup

section Find
variable {t : FileTree} {place p : List String}

theorem find?_of_ne_nil (h : p ≠ []) : t.find? p = t.entries.lookup p := if_neg h

theorem find?_insert (h : place ≠ []) (e : Entry) :
    (t.insert place e).find? p = if p = place then some e else t.find? p := by
  by_cases hp : p = []
  · rw [if_neg (hp ▸ h.symm), hp]
    rfl
  · rw [find?_of_ne_nil hp, find?_of_ne_nil hp]
    unfold insert
    rw [lookup_cons_eq, lookup_filter_ne]
    split <;> rfl

theorem find?_erase (h : place ≠ []) :
    (t.erase place).find? p = if p = place then none else t.find? p := by
  by_cases hp : p = []
  · rw [if_neg (hp ▸ h.symm), hp]
    rfl
  · rw [find?_of_ne_nil hp, find?_of_ne_nil hp]
    exact lookup_filter_ne

theorem insert_insert (e f : Entry) : (t.insert place e).insert place f = t.insert place f := by
  unfold insert
  rw [List.filter_cons_of_neg (by simp), List.filter_filter]
  simp only [Bool.and_self]

theorem erase_insert (e : Entry) : (t.insert place e).erase place = t.erase place := by
  unfold insert erase
  rw [List.filter_cons_of_neg (by simp), List.filter_filter]
  simp only [Bool.and_self]

/-- The tree `u` is the tree `t` but for one place, and has the entry `e?` there or none. -/
structure Differs (t u : FileTree) (place : List String) (e? : Option Entry) : Prop where
  there : u.find? place = e?
  elsewhere : ∀ p, p ≠ place → u.find? p = t.find? p

theorem differs_insert (t : FileTree) (h : place ≠ []) (e : Entry) :
    t.Differs (t.insert place e) place (some e) := by
  refine ⟨?_, fun p hp => ?_⟩
  · rw [find?_insert h, if_pos rfl]
  · rw [find?_insert h, if_neg hp]

theorem differs_erase (t : FileTree) (h : place ≠ []) : t.Differs (t.erase place) place none := by
  refine ⟨?_, fun p hp => ?_⟩
  · rw [find?_erase h, if_pos rfl]
  · rw [find?_erase h, if_neg hp]

end Find

/-! ## Ways -/

section Ways
variable {t u : FileTree} {base place dir start : List String} {path part : String} {e? : Option Entry}
  {last : Path.Last} {target : Target}

theorem Differs.look_directory {name : String} (h : t.Differs u place e?)
    (hplace : t.find? place ≠ some .directory) (hlook : t.look dir name = .ok (some .directory)) :
    u.look dir name = .ok (some .directory) := by
  unfold look at *
  split at hlook
  · cases hlook
  · next hlength =>
    have hfind := Except.ok.inj hlook
    have hother : dir ++ [name] ≠ place := fun heq => hplace (heq ▸ hfind)
    rw [if_neg hlength, h.elsewhere _ hother, hfind]

/-- A way leads through directories, so that a place where none is does not matter to it. -/
theorem Differs.walk (h : t.Differs u place e?) (hplace : t.find? place ≠ some .directory)
    {way : List String} (hwalk : t.walk start way = .ok dir) : u.walk start way = .ok dir := by
  induction way generalizing start with
  | nil => exact hwalk
  | cons c rest ih =>
    rw [FileTree.walk] at hwalk ⊢
    by_cases hskip : c = "" ∨ c = "."
    · rw [if_pos hskip] at hwalk ⊢
      exact ih hwalk
    · rw [if_neg hskip] at hwalk ⊢
      by_cases hback : c = ".."
      · rw [if_pos hback] at hwalk ⊢
        exact ih hwalk
      · rw [if_neg hback] at hwalk ⊢
        split at hwalk
        · cases hwalk
        · cases hwalk
        · cases hwalk
        · next hlook =>
          rw [h.look_directory hplace hlook]
          exact ih hwalk

theorem Differs.approach (h : t.Differs u place e?) (hplace : t.find? place ≠ some .directory)
    (happroach : t.approach base path = .ok (dir, last)) : u.approach base path = .ok (dir, last) := by
  unfold FileTree.approach at *
  split at happroach
  · cases happroach
  · next hlength =>
    rw [if_neg hlength]
    cases hcut : Path.cut? path with
    | none =>
      rw [hcut] at happroach
      cases happroach
    | some cut =>
      obtain ⟨way, last'⟩ := cut
      rw [hcut] at happroach
      dsimp only at happroach ⊢
      cases hwalk : t.walk (if Path.isAbsolute path then [] else base) way with
      | error e =>
        rw [hwalk] at happroach
        cases happroach
      | ok dir' =>
        rw [hwalk] at happroach
        rw [h.walk hplace hwalk]
        exact happroach

/-! ## Files that can be created -/

/-- Where a name without a slash after it leads, if it is not too long. -/
theorem arrive_name (hlength : part.utf8ByteSize ≤ maxNameBytes) :
    t.arrive dir (.name part false) =
      match t.find? (dir ++ [part]) with
      | none => .ok (.free (dir ++ [part]))
      | some e => .ok (.existing (dir ++ [part]) e) := by
  unfold arrive look
  dsimp only
  rw [if_neg (Nat.not_lt.2 hlength)]
  rcases t.find? (dir ++ [part]) with _ | _ | _ <;> rfl

theorem arrive_long_name (hlength : maxNameBytes < part.utf8ByteSize) :
    t.arrive dir (.name part false) = .error .nameTooLong := by
  unfold arrive look
  dsimp only
  rw [if_pos hlength]

/-- Dots lead to a directory. -/
theorem arrive_dots (h : t.arrive dir (.dots part) = .ok target) :
    ∃ back, target = .existing back .directory := by
  unfold arrive at h
  dsimp only at h
  cases hwalk : t.walk dir [part] with
  | error e =>
    rw [hwalk] at h
    cases h
  | ok back =>
    rw [hwalk] at h
    exact ⟨back, (Except.ok.inj h).symm⟩

/-- A file can be created in a directory, under a name that is not too long, where no directory is. -/
theorem creatable_eq_ok_iff : t.creatable base path = .ok place ↔
    ∃ dir part, t.approach base path = .ok (dir, .name part false) ∧ place = dir ++ [part] ∧
      part.utf8ByteSize ≤ maxNameBytes ∧ t.find? place ≠ some .directory := by
  unfold creatable
  constructor
  · intro h
    rcases happroach : t.approach base path with e | ⟨dir, part | ⟨part, _ | _⟩⟩
    · rw [happroach] at h
      cases h
    · rw [happroach] at h
      dsimp only at h
      cases harrive : t.arrive dir (.dots part) with
      | error e =>
        rw [harrive] at h
        cases h
      | ok back =>
        obtain ⟨back, rfl⟩ := arrive_dots harrive
        rw [harrive] at h
        cases h
    · rw [happroach] at h
      dsimp only at h
      by_cases hlength : part.utf8ByteSize ≤ maxNameBytes
      · rw [arrive_name hlength] at h
        rcases hfind : t.find? (dir ++ [part]) with _ | _ | _
        · rw [hfind] at h
          obtain rfl := Except.ok.inj h
          exact ⟨dir, part, rfl, rfl, hlength, by rw [hfind]; nofun⟩
        · rw [hfind] at h
          obtain rfl := Except.ok.inj h
          exact ⟨dir, part, rfl, rfl, hlength, by rw [hfind]; nofun⟩
        · rw [hfind] at h
          cases h
      · rw [arrive_long_name (Nat.lt_of_not_le hlength)] at h
        cases h
    · rw [happroach] at h
      cases h
  · rintro ⟨dir, part, happroach, rfl, hlength, hfind⟩
    rw [happroach]
    dsimp only
    rw [arrive_name hlength]
    rcases hentry : t.find? (dir ++ [part]) with _ | _ | _
    · rfl
    · rfl
    · exact absurd hentry hfind

theorem ne_nil_of_creatable (h : t.creatable base path = .ok place) : place ≠ [] := by
  obtain ⟨dir, part, -, rfl, -⟩ := creatable_eq_ok_iff.1 h
  exact List.append_ne_nil_of_right_ne_nil dir (List.cons_ne_nil part [])

/-- The path of a file that can be created leads to its place, whatever is put there. -/
theorem target_of_creatable (h : t.creatable base path = .ok place) (hdiffers : t.Differs u place e?) :
    u.target base path = .ok (e?.elim (.free place) (.existing place)) := by
  obtain ⟨dir, part, happroach, hplace, hlength, hfind⟩ := creatable_eq_ok_iff.1 h
  unfold target
  rw [hdiffers.approach hfind happroach]
  dsimp only
  rw [arrive_name hlength, ← hplace, hdiffers.there]
  cases e? <;> rfl

/-- A file that was created can be created again. -/
theorem creatable_insert (h : t.creatable base path = .ok place) (content : ByteArray) :
    (t.insert place (.file content)).creatable base path = .ok place := by
  have hdiffers := t.differs_insert (ne_nil_of_creatable h) (.file content)
  obtain ⟨dir, part, happroach, hplace, hlength, hfind⟩ := creatable_eq_ok_iff.1 h
  refine creatable_eq_ok_iff.2
    ⟨dir, part, hdiffers.approach hfind happroach, hplace, hlength, ?_⟩
  rw [hdiffers.there]
  nofun

theorem readText_insert (h : t.creatable base path = .ok place) (text : String) :
    (t.insert place (.file text.toUTF8)).readText base path = .ok text := by
  have hdecode : String.fromUTF8? text.toUTF8 = some text := dif_pos text.isValidUTF8
  unfold readText
  rw [target_of_creatable h (t.differs_insert (ne_nil_of_creatable h) _), Option.elim_some]
  dsimp only
  rw [hdecode]

theorem remove_insert (h : t.creatable base path = .ok place) (content : ByteArray) :
    (t.insert place (.file content)).remove base path = t.erase place := by
  unfold remove
  rw [target_of_creatable h (t.differs_insert (ne_nil_of_creatable h) _)]
  exact erase_insert _

end Ways

end SolMachine.FileTree
