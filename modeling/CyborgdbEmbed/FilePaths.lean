import CyborgdbEmbed.FileSystem

set_option autoImplicit false

namespace CyborgdbEmbed.FilePaths
open FileSystem (Path)

def hasFilename (p : String) : Bool :=
  match p.toList.getLast? with
  | some c => c != '/'
  | none => false

def joinPath (base rest : String) : String :=
  if rest.toList.head? = some '/' then rest
  else if hasFilename base then base ++ "/" ++ rest
  else base ++ rest

def parentPath (p : String) : String :=
  let dir := p.toList.reverse.dropWhile (· != '/')
  match dir.dropWhile (· == '/') with
  | [] => if dir.isEmpty then "" else "/"
  | up => String.ofList up.reverse

/-- The names on the way, `.` left out. No path here goes through `..`. -/
def components (cs : List Char) : Path :=
  ((cs.splitOn '/').map String.ofList).filter fun name => name ≠ "" ∧ name ≠ "."

def below (dir path : String) : Path := components (path.toList.drop dir.toList.length)

structure IsName (s : String) : Prop where
  ne_empty : s ≠ ""
  ne_dot : s ≠ "."
  no_slash : '/' ∉ s.toList

instance (s : String) : Decidable (IsName s) :=
  decidable_of_iff (s ≠ "" ∧ s ≠ "." ∧ '/' ∉ s.toList)
    ⟨fun h => ⟨h.1, h.2.1, h.2.2⟩, fun h => ⟨h.1, h.2, h.3⟩⟩

theorem IsName.toList_ne_nil {s : String} (h : IsName s) : s.toList ≠ [] :=
  fun hs => h.ne_empty (String.toList_eq_nil_iff.mp hs)

theorem head_ne_of_not_mem {s : String} (h : '/' ∉ s.toList) : s.toList.head? ≠ some '/' :=
  fun hs => h (List.mem_of_mem_head? hs)

theorem IsName.head_ne {s : String} (h : IsName s) : s.toList.head? ≠ some '/' :=
  head_ne_of_not_mem h.no_slash

theorem IsName.getLast_ne {s : String} (h : IsName s) : s.toList.getLast h.toList_ne_nil ≠ '/' :=
  fun hs => h.no_slash (hs ▸ List.getLast_mem h.toList_ne_nil)

theorem IsName.hasFilename {s : String} (h : IsName s) : hasFilename s = true := by
  unfold FilePaths.hasFilename
  rw [List.getLast?_eq_some_getLast h.toList_ne_nil]
  exact bne_iff_ne.mpr h.getLast_ne

theorem joinPath_relative {base rest : String} (h : rest.toList.head? ≠ some '/') :
    joinPath base rest = (if hasFilename base then base ++ "/" else base) ++ rest := by
  unfold joinPath
  rw [if_neg h]
  split <;> rfl

theorem joinPath_name {base name : String} (h : IsName name) :
    joinPath base name = (if hasFilename base then base ++ "/" else base) ++ name :=
  joinPath_relative h.head_ne

theorem joinPath_append {base name tail : String} (h : IsName name) (h' : IsName (name ++ tail)) :
    joinPath base name ++ tail = joinPath base (name ++ tail) := by
  rw [joinPath_name h, joinPath_name h', String.append_assoc]

theorem hasFilename_append {base rest : String} (h : hasFilename rest = true) :
    hasFilename (base ++ rest) = true := by
  unfold hasFilename at h ⊢
  rw [String.toList_append, List.getLast?_append]
  cases hr : rest.toList.getLast? with
  | none =>
    rw [hr] at h
    cases h
  | some c =>
    rw [hr] at h
    exact h

theorem hasFilename_joinPath {base rest : String} (h : rest.toList.head? ≠ some '/')
    (hr : hasFilename rest = true) : hasFilename (joinPath base rest) = true := by
  rw [joinPath_relative h]
  exact hasFilename_append hr

theorem parentPath_joinPath {base name : String} (hb : hasFilename base = true)
    (h : '/' ∉ name.toList) : parentPath (joinPath base name) = base := by
  have skip : ∀ c ∈ name.toList.reverse, (c != '/') = true := by
    intro c hc
    exact bne_iff_ne.mpr fun hs => h (hs ▸ List.mem_reverse.mp hc)
  have dir : (joinPath base name).toList.reverse.dropWhile (· != '/') =
      '/' :: base.toList.reverse := by
    rw [joinPath_relative (head_ne_of_not_mem h), if_pos hb]
    simp only [String.toList_append, List.reverse_append]
    rw [List.dropWhile_append_of_pos skip]
    rfl
  have up : ('/' :: base.toList.reverse).dropWhile (· == '/') = base.toList.reverse := by
    unfold hasFilename at hb
    rw [List.dropWhile_cons_of_pos rfl]
    cases hr : base.toList.reverse with
    | nil => rfl
    | cons c cs =>
      rw [← List.head?_reverse, hr] at hb
      apply List.dropWhile_cons_of_neg
      simpa using hb
  have nonempty : base.toList.reverse ≠ [] := by
    intro hr
    unfold hasFilename at hb
    rw [← List.head?_reverse, hr] at hb
    cases hb
  unfold parentPath
  simp only [dir, up]
  rw [List.reverse_reverse, String.ofList_toList]

theorem components_slash (cs ds : List Char) :
    components (cs ++ '/' :: ds) = components cs ++ components ds := by
  unfold components
  rw [List.splitOn_append_cons_self, List.map_append, List.filter_append]

theorem components_name {name : String} (h : IsName name) : components name.toList = [name] := by
  unfold components
  rw [List.splitOn_eq_singleton h.no_slash]
  simp [h.ne_empty, h.ne_dot]

theorem below_self (dir : String) : below dir dir = [] := by
  unfold below
  rw [List.drop_length]
  rfl

def Under (dir path : String) : Prop := ∃ rest, path = dir ++ rest

theorem Under.refl (dir : String) : Under dir dir := ⟨"", (String.append_empty).symm⟩

theorem Under.joinPath {dir path name : String} (h : Under dir path) (hn : IsName name) :
    Under dir (joinPath path name) := by
  obtain ⟨rest, rfl⟩ := h
  rw [joinPath_name hn]
  split
  · exact ⟨rest ++ "/" ++ name, by simp only [String.append_assoc]⟩
  · exact ⟨rest ++ name, by rw [String.append_assoc]⟩

theorem below_append (dir rest : String) : below dir (dir ++ rest) = components rest.toList := by
  unfold below
  rw [String.toList_append, List.drop_left]

theorem below_joinPath {dir path name : String} (h : Under dir path) (hn : IsName name) :
    below dir (joinPath path name) = below dir path ++ [name] := by
  obtain ⟨rest, rfl⟩ := h
  rw [joinPath_name hn, below_append]
  by_cases hf : hasFilename (dir ++ rest) = true
  · rw [if_pos hf, String.append_assoc, String.append_assoc, below_append]
    simp only [String.toList_append]
    rw [show "/".toList ++ name.toList = '/' :: name.toList from rfl, components_slash,
      components_name hn]
  · rw [if_neg hf, String.append_assoc, below_append, String.toList_append]
    -- nothing to separate: `rest` is empty, or ends with a slash already
    cases hr : rest.toList.reverse with
    | nil =>
      obtain hr : rest.toList = [] := List.reverse_eq_nil_iff.mp hr
      rw [hr, List.nil_append, components_name hn]
      rfl
    | cons c cs =>
      have hrest : rest.toList = cs.reverse ++ [c] := by
        rw [← List.reverse_cons, ← hr, List.reverse_reverse]
      obtain rfl : c = '/' := by
        unfold hasFilename at hf
        rw [String.toList_append, hrest, ← List.append_assoc, List.getLast?_concat] at hf
        simpa using hf
      rw [hrest, List.append_assoc, components_slash]
      change components (cs.reverse ++ '/' :: name.toList) = _
      rw [components_slash, components_name hn]
      exact congrArg (· ++ [name]) (List.append_nil _).symm

end CyborgdbEmbed.FilePaths
