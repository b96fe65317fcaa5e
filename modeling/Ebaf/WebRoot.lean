import Ebaf.PosixPaths

/-! # The web root of the dashboard

`Handler.translate_path` of `demo_live_cipher.py` takes the place of a library
method that drops every `..`; it joins what was requested to `WEB_DIR` and strips
the slashes in front only.
-/
namespace Ebaf
open PosixPaths

/-- `ROOT`: a resolved absolute path. -/
structure Root where
  parts : List Component
  plain : ∀ part ∈ parts, Plain part

/-- `WEB_DIR = ROOT / "web" / "demo"` -/
def webDir (root : Root) : List Component := root.parts ++ ["web".toList, "demo".toList]

/-- `urlparse(path).path` -/
def urlPath (path : List Char) : List Char := path.takeWhile fun c => c ≠ '?' ∧ c ≠ '#'

/-- The components `pathlib` keeps of a relative path. -/
def relativeParts (s : List Char) : List Component :=
  (splitSlash s).filter fun part => part ≠ [] ∧ part ≠ dot

/-- `Handler.translate_path` -/
def translatePath (root : Root) (path : List Char) : List Char :=
  let cleanPath := urlPath path
  if cleanPath = ['/'] then absolute (webDir root ++ relativeParts "index.html".toList)
  else absolute (webDir root ++ relativeParts (cleanPath.dropWhile (· = '/')))

/-- The path leads into `WEB_DIR`. -/
def InsideWebDir (root : Root) (path : List Char) : Prop := webDir root <+: resolve path

/-- The steps up and the names of a request. -/
def requested (path : List Char) : Nat × List Component :=
  reduce (relativeParts ((urlPath path).dropWhile (· = '/')))

/-- After its steps up, a request names the directories it has left. -/
def ReturnsToWebDir (root : Root) (path : List Char) : Prop :=
  (webDir root).drop ((webDir root).length - (requested path).1) <+: (requested path).2

variable {root : Root} {path : List Char}

theorem plain_webDir (root : Root) : ∀ part ∈ webDir root, Plain part := by
  have hweb : Plain "web".toList := ⟨by decide, by decide, by decide, by decide⟩
  have hdemo : Plain "demo".toList := ⟨by decide, by decide, by decide, by decide⟩
  intro part hpart
  rcases List.mem_append.mp hpart with hroot | hlast
  · exact root.plain part hroot
  · simp only [List.mem_cons, List.not_mem_nil, or_false] at hlast
    rcases hlast with rfl | rfl
    · exact hweb
    · exact hdemo

theorem not_mem_relativeParts (s : List Char) : ∀ part ∈ relativeParts s, '/' ∉ part :=
  fun part hpart => not_mem_splitSlash s part (List.mem_filter.mp hpart).1

/-- What is joined to `WEB_DIR` is resolved from there. -/
theorem resolve_join (root : Root) (s : List Char) :
    resolve (absolute (webDir root ++ relativeParts s)) =
      resolveFrom (webDir root) (relativeParts s) := by
  have hslash : ∀ part ∈ webDir root ++ relativeParts s, '/' ∉ part := by
    intro part hpart
    rcases List.mem_append.mp hpart with hdir | hrelative
    · exact (plain_webDir root part hdir).no_slash
    · exact not_mem_relativeParts s part hrelative
  rw [resolve, splitSlash_absolute hslash, resolveFrom, if_pos (Or.inl rfl), resolveFrom_append,
    resolveFrom_plain (plain_webDir root), List.nil_append]

/-- The request for `/` is the request for `index.html`, which has no step up. -/
theorem reduce_index : reduce (relativeParts "index.html".toList) = (0, ["index.html".toList]) := by
  decide

theorem requested_slash (h : urlPath path = ['/']) : requested path = (0, []) := by
  rw [requested, h]
  decide

/-- No step up leads into `WEB_DIR`. -/
theorem webDir_drop_prefix (root : Root) (names : List Component) :
    (webDir root).drop ((webDir root).length - 0) <+: names := by
  rw [Nat.sub_zero, List.drop_length]
  exact List.nil_prefix

theorem inside_of_slash (root : Root) (h : urlPath path = ['/']) :
    InsideWebDir root (translatePath root path) := by
  rw [InsideWebDir, translatePath, if_pos h, resolve_join, prefix_resolveFrom_iff, reduce_index]
  exact webDir_drop_prefix root _

theorem inside_iff_of_ne_slash (root : Root) (h : urlPath path ≠ ['/']) :
    InsideWebDir root (translatePath root path) ↔ ReturnsToWebDir root path := by
  rw [InsideWebDir, ReturnsToWebDir, translatePath, if_neg h, resolve_join,
    prefix_resolveFrom_iff]
  exact Iff.rfl

/-- **Where requests lead**: into `WEB_DIR` exactly when, after their steps up, they
name the directories they have left. -/
theorem translatePath_inside_iff (root : Root) (path : List Char) :
    InsideWebDir root (translatePath root path) ↔ ReturnsToWebDir root path := by
  by_cases hslash : urlPath path = ['/']
  · have hreturns : ReturnsToWebDir root path := by
      rw [ReturnsToWebDir, requested_slash hslash]
      exact webDir_drop_prefix root _
    exact ⟨fun _ => hreturns, fun _ => inside_of_slash root hslash⟩
  · exact inside_iff_of_ne_slash root hslash

/-- A request without more steps up than names before them. -/
theorem translatePath_inside (h : (requested path).1 = 0) :
    InsideWebDir root (translatePath root path) := by
  by_cases hslash : urlPath path = ['/']
  · exact inside_of_slash root hslash
  · rw [inside_iff_of_ne_slash root hslash, ReturnsToWebDir, h]
    exact webDir_drop_prefix root _

/-- The password file is requested and named. -/
theorem translatePath_outside : ¬ ∀ (root : Root) (path : List Char),
    InsideWebDir root (translatePath root path) := by
  intro h
  have hplain : ∀ part ∈ ["srv".toList], Plain part := by
    intro part hpart
    rw [List.mem_singleton.mp hpart]
    exact ⟨by decide, by decide, by decide, by decide⟩
  have hrequested : requested "/../../../etc/passwd".toList =
      (3, ["etc".toList, "passwd".toList]) := by decide
  have hinside := (inside_iff_of_ne_slash ⟨["srv".toList], hplain⟩ (by decide)).mp
    (h ⟨["srv".toList], hplain⟩ "/../../../etc/passwd".toList)
  rw [ReturnsToWebDir, hrequested] at hinside
  have hprefix : ["srv".toList, "web".toList, "demo".toList] <+:
      ["etc".toList, "passwd".toList] := hinside
  exact absurd hprefix (by decide)

end Ebaf
