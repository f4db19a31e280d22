import PackageAtlas.Proofs.History.Paths
import PackageAtlas.Proofs.History.Patterns
import PackageAtlas.Proofs.Spans.Tokens
import PackageAtlas.Query.Lookup

/-!
Specifiers of the members of a package. A specifier is cut at the first dot after its last slash, so
a path with a dot there is cut too early. All other paths come back whole, and so does the name
behind them; the stars before the path and those before the name are counted together.
-/

set_option autoImplicit false
set_option relaxedAutoImplicit false

namespace PackageAtlas

/-! ### Texts -/

/-- What follows the last slash of a text, or all of it. -/
def lastElement (text : List Char) : List Char := (text.reverse.takeWhile (· != '/')).reverse

/-- There is no dot in the last element of a path. -/
def IsPlainPath (path : String) : Prop := '.' ∉ lastElement path.toList

instance (path : String) : Decidable (IsPlainPath path) :=
  inferInstanceAs (Decidable ('.' ∉ lastElement path.toList))

/-- So many stars. -/
def stars (count : Nat) : String := String.ofList (List.replicate count '*')

/-- The specifier of a member, with stars before the path and before the name. -/
def specifier (path name : String) (outer inner : Nat) : String :=
  stars outer ++ path ++ "." ++ stars inner ++ name

theorem lastElement_suffix (text : List Char) : lastElement text <:+ text := by
  have h := List.takeWhile_prefix (· != '/') (l := text.reverse)
  rw [← List.reverse_suffix, List.reverse_reverse] at h
  exact h

theorem lastElement_append {text rest : List Char} (h : '/' ∉ rest) :
    lastElement (text ++ rest) = lastElement text ++ rest := by
  have hrest : ∀ c ∈ rest.reverse, (c != '/') = true := by
    intro c hc
    rw [bne_iff_ne]
    rintro rfl
    exact h (List.mem_reverse.1 hc)
  rw [lastElement, List.reverse_append, List.takeWhile_append_of_pos hrest, List.reverse_append,
    List.reverse_reverse, lastElement]

/-- A path without a dot in its last element and a name come back from what is made of them. -/
theorem splitSpecifier?_append {path name : List Char} (hpath : '.' ∉ lastElement path)
    (hname : '/' ∉ name) : splitSpecifier? (path ++ '.' :: name) = some (path, name) := by
  obtain ⟨front, hfront⟩ := lastElement_suffix path
  have hslash : '/' ∉ '.' :: name := by simpa using hname
  have htail : lastElement (path ++ '.' :: name) = lastElement path ++ '.' :: name :=
    lastElement_append hslash
  have hcut : Text.cutAt? ['.'] (lastElement path ++ '.' :: name) =
      some (lastElement path, name) := Text.cutAt?_append hpath name
  have hwhole : path ++ '.' :: name = front ++ (lastElement path ++ '.' :: name) := by
    rw [← List.append_assoc, hfront]
  have hhead : (path ++ '.' :: name).take
      ((path ++ '.' :: name).length - (lastElement path ++ '.' :: name).length) = front := by
    rw [hwhole, List.length_append, Nat.add_sub_cancel, List.take_left]
  change (Text.cutAt? ['.'] (lastElement (path ++ '.' :: name))).map (fun parts ↦
    ((path ++ '.' :: name).take ((path ++ '.' :: name).length -
      (lastElement (path ++ '.' :: name)).length) ++ parts.1, parts.2)) = some (path, name)
  rw [htail, hcut, hhead, Option.map_some, hfront]

/-- The stars before a text that starts with none. -/
theorem dropStars_replicate {text : List Char} (h : text.head? ≠ some '*') (count : Nat) :
    dropStars (List.replicate count '*' ++ text) = (String.ofList text, count) := by
  have hall : ∀ c ∈ List.replicate count '*', (c == '*') = true := by
    intro c hc
    rw [(List.mem_replicate.1 hc).2]
    rfl
  have htext : text.takeWhile (· == '*') = [] ∧ text.dropWhile (· == '*') = text := by
    cases text with
    | nil => exact ⟨rfl, rfl⟩
    | cons c rest =>
      have hc : (c == '*') = false := by simpa using h
      exact ⟨List.takeWhile_cons_of_neg (by simp [hc]), List.dropWhile_cons_of_neg (by simp [hc])⟩
  unfold dropStars
  rw [List.dropWhile_append_of_pos hall, List.takeWhile_append_of_pos hall, htext.1, htext.2,
    List.append_nil, List.length_replicate]

namespace IsName

variable {name : String}

theorem not_mem (h : IsName name) {c : Char} (hc : Lexeme.isNamePart c = false) :
    c ∉ name.toList := by
  intro hmem
  rw [h c hmem] at hc
  cases hc

theorem no_star (h : IsName name) : name.toList.head? ≠ some '*' :=
  fun hhead ↦ h.not_mem (by decide) (List.mem_of_head? hhead)

/-- Names have no parts. -/
theorem splitOn (h : IsName name) :
    (Text.splitOn '.' name.toList).map String.ofList = [name] := by
  rw [Text.splitOn_of_not_mem (h.not_mem (by decide)), List.map_singleton, String.ofList_toList]

end IsName

/-- What is in the last element of a text with more in front of it. -/
theorem mem_of_mem_lastElement_append {front text : List Char} {c : Char}
    (h : c ∈ lastElement (front ++ text)) : c ∈ front ∨ c ∈ lastElement text := by
  rw [lastElement, List.mem_reverse, List.reverse_append, List.takeWhile_append] at h
  rw [lastElement, List.mem_reverse]
  split at h
  · rename_i hall
    rw [(List.takeWhile_prefix _).eq_of_length hall]
    rcases List.mem_append.1 h with hin | hin
    · exact .inr hin
    · exact .inl (List.mem_reverse.1 ((List.takeWhile_prefix _).subset hin))
  · exact .inr h

theorem toList_specifier (path name : String) (outer inner : Nat) :
    (specifier path name outer inner).toList = (List.replicate outer '*' ++ path.toList) ++
      '.' :: (List.replicate inner '*' ++ name.toList) := by
  simp [specifier, stars, String.toList_append]

theorem specifier_zero (path name : String) : specifier path name 0 0 = path ++ "." ++ name := by
  simp [specifier, stars]

/-- A specifier is cut between the path and the name, each with its stars. -/
theorem splitSpecifier?_specifier {path name : String} (hpath : IsPlainPath path)
    (hname : IsName name) (outer inner : Nat) :
    splitSpecifier? (specifier path name outer inner).toList = some
      (List.replicate outer '*' ++ path.toList, List.replicate inner '*' ++ name.toList) := by
  rw [toList_specifier]
  refine splitSpecifier?_append (fun hin ↦ ?_) fun hin ↦ ?_
  · rcases mem_of_mem_lastElement_append hin with hin | hin
    · cases (List.mem_replicate.1 hin).2
    · exact hpath hin
  · rcases List.mem_append.1 hin with hin | hin
    · cases (List.mem_replicate.1 hin).2
    · exact hname.not_mem (by decide) hin

/-! ### The scope of the package itself -/

namespace ResolvedPackage

variable {package : ResolvedPackage} {name : String} {id : SymbolId}

/-- The path of a package stands for its own scope. -/
theorem scopeFor_path (package : ResolvedPackage) :
    package.scopeFor package.path = pure (.ok package.scope) :=
  if_pos rfl

/-- The specifier of a member leads to it. -/
theorem run_resolveObject (hpath : IsPlainPath package.path) (hname : IsName name)
    (hfound : package.scope.find? name = some id) (w : Workspace) :
    (package.resolveObject (specifier package.path name 0 0)).run w = some (.ok id, w) := by
  unfold resolveObject
  simp only [splitSpecifier?_specifier hpath hname, List.replicate_zero, List.nil_append,
    String.ofList_toList, scopeFor_path, pure_bind, hname.splitOn]
  unfold objectIn
  simp only [List.headD_cons, hfound]
  rfl

/-- The specifier of a type leads to it, behind as many pointers as there are stars. -/
theorem run_resolveType (hpath : IsPlainPath package.path)
    (hstar : package.path.toList.head? ≠ some '*') (hname : IsName name)
    (hfound : package.scope.find? name = some id) {w : Workspace}
    (hkind : (w.atlas.store.get id).kind = .typeName) (outer inner : Nat) :
    (package.resolveType (specifier package.path name outer inner)).run w =
      some (.ok ((w.atlas.store.typeOf id).pointers (outer + inner)), w) := by
  unfold resolveType
  simp only [splitSpecifier?_specifier hpath hname, dropStars_replicate hstar,
    dropStars_replicate hname.no_star, String.ofList_toList, scopeFor_path, pure_bind]
  unfold typeIn
  simp only [hfound]
  change some (((if (w.atlas.store.get id).kind = .typeName then _ else _ :
    Except LookupError Ty)).map _, w) = _
  rw [if_pos hkind]
  rfl

end ResolvedPackage

end PackageAtlas
