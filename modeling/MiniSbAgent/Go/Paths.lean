import Mathlib

/-!
# Go file paths

`Clean`, `Dir` and `Join` of package `path/filepath` with `/` as the separator: they work on the text of a path only.

* `cleanElems` — the elements that are left of a path when it is cleaned, and `render` their text;
* `cleanPath_cleanPath` — a cleaned path stays as it is;
* `cleanPath_joinPath`, `dirPath_joinPath` — a cleaned directory joined with one plain element is clean, and is a path
  directly inside that directory;
* `joinPath_inj` — different elements give different paths.
-/

namespace MiniSbAgent.Go

/-- One element of a path is put on the cleaned elements before it, the last one first. -/
def cleanElem (rooted : Bool) (out : List String) (elem : String) : List String :=
  if elem = "" ∨ elem = "." then out
  else if elem ≠ ".." then elem :: out
  else
    match out with
    -- the root has no parent
    | [] => if rooted then [] else [".."]
    | last :: before => if last = ".." then ".." :: out else before

/-- What stands between the separators. -/
def pathParts (path : String) : List String := (path.toList.splitOn '/').map String.ofList

def joinElems (es : List String) : String := String.ofList (['/'].intercalate (es.map String.toList))

def isRooted (path : String) : Bool := path.toList.head? == some '/'

/-- The elements of a cleaned path, the first one first. -/
def cleanElems (path : String) : List String := ((pathParts path).foldl (cleanElem (isRooted path)) []).reverse

def render (rooted : Bool) (es : List String) : String :=
  if rooted then "/" ++ joinElems es else if joinElems es = "" then "." else joinElems es

/-- `filepath.Clean`. -/
def cleanPath (path : String) : String := render (isRooted path) (cleanElems path)

/-- `filepath.Dir`: what stands before the last separator, cleaned. -/
def dirPath (path : String) : String := cleanPath (String.ofList (path.toList.rdropWhile (· != '/')))

/-- `filepath.Join`: empty elements at the front are ignored. -/
def joinPath (elems : List String) : String :=
  match elems.dropWhile (· == "") with
  | [] => ""
  | elems => cleanPath (joinElems elems)

/-! ### The elements of a path -/

/-- An element that names something in the directory before it. -/
structure PlainElem (e : String) : Prop where
  noSlash : '/' ∉ e.toList
  ne_empty : e ≠ ""
  ne_dot : e ≠ "."
  ne_dotdot : e ≠ ".."

theorem toList_joinElems (es : List String) :
    (joinElems es).toList = ['/'].intercalate (es.map String.toList) := String.toList_ofList

theorem pathParts_joinElems {es : List String} (hne : es ≠ []) (h : ∀ e ∈ es, '/' ∉ e.toList) :
    pathParts (joinElems es) = es := by
  unfold pathParts
  rw [toList_joinElems, List.splitOn_intercalate]
  · rw [List.map_map, show String.ofList ∘ String.toList = id from funext fun _ => String.ofList_toList, List.map_id]
  · intro l hl
    obtain ⟨e, he, rfl⟩ := List.mem_map.1 hl
    exact h e he
  · simpa using hne

theorem notMem_of_mem_splitOn {α : Type} [DecidableEq α] (sep : α) {xs l : List α} (h : l ∈ xs.splitOn sep) :
    sep ∉ l := by
  induction xs generalizing l with
  | nil =>
    cases List.mem_singleton.1 h
    exact List.not_mem_nil
  | cons x xs ih =>
    rw [List.splitOn_eq_splitOnP, List.splitOnP_cons_eq_if_modifyHead, ← List.splitOn_eq_splitOnP] at h
    split at h
    · rcases List.mem_cons.1 h with rfl | h
      · exact List.not_mem_nil
      · exact ih h
    · rename_i hx
      obtain ⟨hd, tl, hsplit⟩ := List.exists_cons_of_ne_nil (List.splitOnP_ne_nil (· == sep) xs)
      rw [← List.splitOn_eq_splitOnP] at hsplit
      rw [hsplit] at h ih
      rcases List.mem_cons.1 h with rfl | h
      · rw [List.mem_cons, not_or]
        exact ⟨fun he => hx (by simp [he]), ih List.mem_cons_self⟩
      · exact ih (List.mem_cons_of_mem _ h)

theorem noSlash_of_mem_pathParts {path e : String} (he : e ∈ pathParts path) : '/' ∉ e.toList := by
  obtain ⟨l, hl, rfl⟩ := List.mem_map.1 he
  rw [String.toList_ofList]
  exact notMem_of_mem_splitOn '/' hl

theorem joinElems_singleton (e : String) : joinElems [e] = e :=
  String.toList_injective (by simp [toList_joinElems])

theorem joinElems_cons {e : String} {es : List String} (hne : es ≠ []) :
    joinElems (e :: es) = e ++ "/" ++ joinElems es := by
  obtain ⟨e', es, rfl⟩ := List.exists_cons_of_ne_nil hne
  refine String.toList_injective ?_
  simp [toList_joinElems, List.intercalate_cons_cons]

theorem joinElems_concat {es : List String} (hne : es ≠ []) (e : String) :
    joinElems (es ++ [e]) = joinElems es ++ "/" ++ e := by
  induction es with
  | nil => exact absurd rfl hne
  | cons x es ih =>
    by_cases hes : es = []
    · subst hes
      refine String.toList_injective ?_
      simp [toList_joinElems]
    · rw [List.cons_append, joinElems_cons (by simp), ih hes, joinElems_cons hes]
      simp only [String.append_assoc]

/-! ### Cleaned elements -/

/-- The elements of a cleaned path, the last one first: `..` stands in front of all others, and never below the
root. -/
structure CleanOut (rooted : Bool) (out : List String) : Prop where
  elem : ∀ e ∈ out, '/' ∉ e.toList ∧ e ≠ "" ∧ e ≠ "."
  ups : ∃ plain k, out = plain ++ List.replicate k ".." ∧ ".." ∉ plain ∧ (rooted = true → k = 0)

theorem CleanOut.nil (rooted : Bool) : CleanOut rooted [] :=
  ⟨fun _ h => absurd h List.not_mem_nil, [], 0, rfl, List.not_mem_nil, fun _ => rfl⟩

theorem CleanOut.push {rooted : Bool} {out : List String} (h : CleanOut rooted out) {e : String} (he : PlainElem e) :
    CleanOut rooted (e :: out) := by
  obtain ⟨plain, k, rfl, hplain, hk⟩ := h.ups
  refine ⟨?_, e :: plain, k, rfl, ?_, hk⟩
  · intro x hx
    rcases List.mem_cons.1 hx with rfl | hx
    · exact ⟨he.noSlash, he.ne_empty, he.ne_dot⟩
    · exact h.elem x hx
  · rw [List.mem_cons, not_or]
    exact ⟨he.ne_dotdot.symm, hplain⟩

/-- An element that is not `..` has none in front of it that could be dropped with it. -/
theorem CleanOut.tail {rooted : Bool} {e : String} {out : List String} (h : CleanOut rooted (e :: out)) :
    CleanOut rooted out := by
  obtain ⟨plain, k, hout, hplain, hk⟩ := h.ups
  refine ⟨fun x hx => h.elem x (List.mem_cons_of_mem _ hx), ?_⟩
  rcases plain with _ | ⟨p, plain⟩
  · rcases k with _ | k
    · cases hout
    · rw [List.nil_append, List.replicate_succ] at hout
      cases hout
      exact ⟨[], k, rfl, List.not_mem_nil, fun hr => absurd (hk hr) (Nat.succ_ne_zero k)⟩
  · cases hout
    exact ⟨plain, k, rfl, fun hmem => hplain (List.mem_cons_of_mem _ hmem), hk⟩

/-- What `..` stands on is `..` again, and not the root. -/
theorem CleanOut.of_dotdot {rooted : Bool} {out : List String} (h : CleanOut rooted (".." :: out)) :
    rooted = false ∧ ∀ e ∈ out, e = ".." := by
  obtain ⟨plain, k, hout, hplain, hk⟩ := h.ups
  rcases plain with _ | ⟨p, plain⟩
  · rcases k with _ | k
    · cases hout
    · rw [List.nil_append, List.replicate_succ] at hout
      cases hout
      refine ⟨?_, fun e he => List.eq_of_mem_replicate he⟩
      cases rooted
      · rfl
      · exact absurd (hk rfl) (Nat.succ_ne_zero k)
  · cases hout
    exact absurd List.mem_cons_self hplain

theorem CleanOut.up {out : List String} (h : CleanOut false out) (hall : ∀ e ∈ out, e = "..") :
    CleanOut false (".." :: out) := by
  refine ⟨?_, [], out.length + 1, ?_, List.not_mem_nil, fun hr => by cases hr⟩
  · intro x hx
    rcases List.mem_cons.1 hx with rfl | hx
    · decide
    · exact h.elem x hx
  · rw [List.nil_append, List.replicate_succ, List.cons.injEq]
    exact ⟨rfl, List.eq_replicate_of_mem hall⟩

theorem CleanOut.cleanElem {rooted : Bool} {out : List String} (h : CleanOut rooted out) {e : String}
    (he : '/' ∉ e.toList) : CleanOut rooted (cleanElem rooted out e) := by
  unfold Go.cleanElem
  split
  · exact h
  rename_i hne
  rw [not_or] at hne
  split
  · rename_i hup
    exact h.push ⟨he, hne.1, hne.2, hup⟩
  split
  · cases rooted
    · exact CleanOut.up (.nil false) (fun _ hx => absurd hx List.not_mem_nil)
    · exact .nil true
  · rename_i last before
    split
    · rename_i hlast
      subst hlast
      obtain ⟨hroot, hall⟩ := h.of_dotdot
      subst hroot
      refine CleanOut.up h fun x hx => ?_
      rcases List.mem_cons.1 hx with rfl | hx
      · rfl
      · exact hall x hx
    · exact h.tail

theorem cleanOut_foldl {rooted : Bool} {parts : List String} (h : ∀ e ∈ parts, '/' ∉ e.toList) {out : List String}
    (hout : CleanOut rooted out) : CleanOut rooted (parts.foldl (cleanElem rooted) out) := by
  induction parts generalizing out with
  | nil => exact hout
  | cons e parts ih =>
    rw [List.foldl_cons]
    exact ih (fun x hx => h x (List.mem_cons_of_mem _ hx)) (hout.cleanElem (h e List.mem_cons_self))

theorem cleanOut_cleanElems (path : String) : CleanOut (isRooted path) (cleanElems path).reverse := by
  unfold cleanElems
  rw [List.reverse_reverse]
  exact cleanOut_foldl (fun e he => noSlash_of_mem_pathParts he) (.nil _)

/-- Cleaned elements are put one after the other. -/
theorem CleanOut.foldl {rooted : Bool} {out : List String} (h : CleanOut rooted out) :
    out.reverse.foldl (Go.cleanElem rooted) [] = out := by
  induction out with
  | nil => rfl
  | cons e out ih =>
    rw [List.reverse_cons, List.foldl_append, ih h.tail, List.foldl_cons, List.foldl_nil]
    obtain ⟨-, hempty, hdot⟩ := h.elem e List.mem_cons_self
    unfold Go.cleanElem
    rw [if_neg (by simp [hempty, hdot])]
    split
    · rfl
    · rename_i hup
      rw [not_not] at hup
      subst hup
      obtain ⟨hroot, hall⟩ := h.of_dotdot
      subst hroot
      rcases out with _ | ⟨last, before⟩
      · rfl
      · simp [hall last List.mem_cons_self]

/-! ### The text of cleaned elements -/

/-- The part in front of the first separator of a rooted path. -/
def lead (rooted : Bool) : List String := if rooted then [""] else []

section Text

variable {rooted : Bool} {es : List String} {e : String}

theorem render_concat (he : e ≠ "") :
    render rooted (es ++ [e]) = joinElems (lead rooted ++ es ++ [e]) := by
  cases rooted
  · have hne : joinElems (es ++ [e]) ≠ "" := by
      intro h
      by_cases hnil : es = []
      · rw [hnil, List.nil_append, joinElems_singleton] at h
        exact he h
      · rw [joinElems_concat hnil] at h
        simpa using congrArg String.toList h
    rw [render, if_neg (by decide), if_neg hne]
    rfl
  · show "/" ++ joinElems (es ++ [e]) = joinElems ("" :: (es ++ [e]))
    rw [joinElems_cons (by simp)]
    rfl

/-- Whether a path of cleaned elements and one more is rooted is read off its text. -/
theorem isRooted_joinElems (hes : ∀ x ∈ es, '/' ∉ x.toList ∧ x ≠ "") (he : '/' ∉ e.toList) :
    isRooted (joinElems (lead rooted ++ es ++ [e])) = rooted := by
  have hfirst : ∀ (x y : String), '/' ∉ x.toList → x ≠ "" → isRooted (x ++ y) = false := by
    intro x y hx hne
    obtain ⟨c, cs, hcs⟩ := List.exists_cons_of_ne_nil (l := x.toList) fun h => hne (String.toList_injective h)
    rw [hcs, List.mem_cons, not_or] at hx
    simp [isRooted, hcs, Ne.symm hx.1]
  cases rooted
  · show isRooted (joinElems (es ++ [e])) = false
    rcases es with _ | ⟨x, es⟩
    · rw [List.nil_append, joinElems_singleton]
      by_cases hempty : e = ""
      · subst hempty
        decide
      · have := hfirst e "" he hempty
        rwa [String.append_empty] at this
    · rw [List.cons_append, joinElems_cons (by simp), String.append_assoc]
      exact hfirst x _ (hes x List.mem_cons_self).1 (hes x List.mem_cons_self).2
  · show isRooted (joinElems ("" :: (es ++ [e]))) = true
    rw [joinElems_cons (by simp)]
    simp [isRooted]

theorem cleanElems_joinElems (h : CleanOut rooted es.reverse) (he : '/' ∉ e.toList) :
    cleanElems (joinElems (lead rooted ++ es ++ [e])) = (cleanElem rooted es.reverse e).reverse := by
  have hes : ∀ x ∈ es, '/' ∉ x.toList ∧ x ≠ "" := fun x hx =>
    ⟨(h.elem x (List.mem_reverse.2 hx)).1, (h.elem x (List.mem_reverse.2 hx)).2.1⟩
  have hparts : pathParts (joinElems (lead rooted ++ es ++ [e])) = lead rooted ++ es ++ [e] := by
    refine pathParts_joinElems (by simp) fun x hx => ?_
    simp only [List.mem_append, List.mem_singleton] at hx
    rcases hx with (hx | hx) | rfl
    · cases rooted
      · cases hx
      · cases List.mem_singleton.1 hx
        decide
    · exact (hes x hx).1
    · exact he
  have hlead : (lead rooted).foldl (cleanElem rooted) [] = [] := by cases rooted <;> rfl
  have hfold := h.foldl
  rw [List.reverse_reverse] at hfold
  unfold cleanElems
  rw [isRooted_joinElems hes he, hparts, List.foldl_append, List.foldl_append, hlead, hfold]
  rfl

end Text

/-- A rendered path is clean: it has the elements it was made of. -/
theorem cleanPath_render {rooted : Bool} {es : List String} (h : CleanOut rooted es.reverse) :
    cleanPath (render rooted es) = render rooted es := by
  induction es using List.reverseRecOn with
  | nil => cases rooted <;> decide +kernel
  | append_singleton es e _ =>
    rw [List.reverse_append, List.reverse_singleton, List.singleton_append] at h
    obtain ⟨hslash, hempty, -⟩ := h.elem e List.mem_cons_self
    have hes : ∀ x ∈ es, '/' ∉ x.toList ∧ x ≠ "" := fun x hx => by
      obtain ⟨h1, h2, -⟩ := h.elem x (List.mem_cons_of_mem _ (List.mem_reverse.2 hx))
      exact ⟨h1, h2⟩
    have hlast : cleanElem rooted es.reverse e = e :: es.reverse := by
      have hall := h.foldl
      rw [List.reverse_cons, List.foldl_append, h.tail.foldl] at hall
      exact hall
    rw [render_concat hempty, cleanPath, isRooted_joinElems hes hslash,
      cleanElems_joinElems h.tail hslash, hlast, List.reverse_cons, List.reverse_reverse,
      render_concat hempty]

theorem cleanPath_cleanPath (path : String) : cleanPath (cleanPath path) = cleanPath path :=
  cleanPath_render (cleanOut_cleanElems path)

theorem cleanPath_ne_empty (path : String) : cleanPath path ≠ "" := by
  rw [cleanPath, render]
  split
  · intro h
    simpa using congrArg String.toList h
  · split
    · decide
    · assumption

/-! ### One element inside a directory -/

section Join

variable {dir e : String}

theorem pathParts_append (he : '/' ∉ e.toList) : pathParts (dir ++ "/" ++ e) = pathParts dir ++ [e] := by
  have hsplit : (dir.toList ++ '/' :: e.toList).splitOn '/' = dir.toList.splitOn '/' ++ [e.toList] := by
    have hlast : e.toList.splitOnP (· == '/') = [e.toList] := by
      refine List.splitOnP_eq_singleton fun c hc => ?_
      simpa using fun h : c = '/' => he (h ▸ hc)
    rw [List.splitOn_eq_splitOnP, List.splitOn_eq_splitOnP, List.splitOnP_append_cons _ _ (by simp), hlast]
  unfold pathParts
  simp [hsplit]

theorem joinPath_eq (hdir : dir ≠ "") (he : PlainElem e) :
    joinPath [dir, e] = render (isRooted dir) (cleanElems dir ++ [e]) := by
  have hjoin : joinPath [dir, e] = cleanPath (dir ++ "/" ++ e) := by
    unfold joinPath
    rw [List.dropWhile_cons_of_neg (by simpa using hdir)]
    show cleanPath (joinElems ([dir] ++ [e])) = _
    rw [joinElems_concat (by simp), joinElems_singleton]
  have hroot : isRooted (dir ++ "/" ++ e) = isRooted dir := by
    obtain ⟨c, cs, hcs⟩ := List.exists_cons_of_ne_nil (l := dir.toList) fun h => hdir (String.toList_injective h)
    simp [isRooted, hcs]
  rw [hjoin, cleanPath, hroot, cleanElems, hroot, pathParts_append he.noSlash, List.foldl_append, List.foldl_cons,
    List.foldl_nil]
  congr 1
  conv_lhs => unfold cleanElem
  rw [if_neg (by simp [he.ne_empty, he.ne_dot]), if_pos he.ne_dotdot, List.reverse_cons]
  rfl

theorem cleanPath_joinPath (hdir : dir ≠ "") (he : PlainElem e) :
    cleanPath (joinPath [dir, e]) = joinPath [dir, e] := by
  rw [joinPath_eq hdir he]
  refine cleanPath_render ?_
  rw [List.reverse_append]
  exact (cleanOut_cleanElems dir).push he

/-- **The directory of a joined path** is the one it was joined to. -/
theorem dirPath_joinPath (hdir : dir ≠ "") (he : PlainElem e) : dirPath (joinPath [dir, e]) = cleanPath dir := by
  have hclean := cleanOut_cleanElems dir
  have hes : ∀ x ∈ cleanElems dir, '/' ∉ x.toList ∧ x ≠ "" := fun x hx => by
    obtain ⟨h1, h2, -⟩ := hclean.elem x (List.mem_reverse.2 hx)
    exact ⟨h1, h2⟩
  obtain ⟨pre, hpre⟩ : ∃ pre, pre = lead (isRooted dir) ++ cleanElems dir := ⟨_, rfl⟩
  -- the last element is all that stands behind the last separator
  have hdrop : String.ofList ((joinElems (pre ++ [e])).toList.rdropWhile (· != '/')) = joinElems (pre ++ [""]) := by
    have hall : ∀ c ∈ e.toList, (c != '/') = true := fun c hc => by
      simpa using fun h : c = '/' => he.noSlash (h ▸ hc)
    by_cases hnil : pre = []
    · rw [hnil, List.nil_append, List.nil_append, joinElems_singleton, joinElems_singleton,
        List.rdropWhile_eq_nil_iff.2 hall]
    · rw [joinElems_concat hnil, joinElems_concat hnil]
      refine String.toList_injective ?_
      simp only [String.toList_append, String.toList_ofList, List.rdropWhile, List.reverse_append]
      rw [List.dropWhile_append_of_pos (fun c hc => hall c (List.mem_reverse.1 hc))]
      simp
  rw [joinPath_eq hdir he, render_concat he.ne_empty, ← hpre, dirPath, hdrop, hpre,
    cleanPath, cleanPath, isRooted_joinElems hes (by decide), cleanElems_joinElems hclean (by decide)]
  simp [cleanElem]

theorem joinPath_inj {e' : String} (hdir : dir ≠ "") (he : PlainElem e) (he' : PlainElem e')
    (h : joinPath [dir, e] = joinPath [dir, e']) : e = e' := by
  rw [joinPath_eq hdir he, joinPath_eq hdir he', render_concat he.ne_empty, render_concat he'.ne_empty] at h
  by_cases hnil : lead (isRooted dir) ++ cleanElems dir = []
  · rwa [hnil, List.nil_append, List.nil_append, joinElems_singleton, joinElems_singleton] at h
  · rw [joinElems_concat hnil, joinElems_concat hnil] at h
    exact String.toList_injective (by simpa using congrArg String.toList h)

end Join

end MiniSbAgent.Go
