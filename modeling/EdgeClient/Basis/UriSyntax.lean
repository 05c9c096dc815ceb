import EdgeClient.Basis.Literals

/-!
# The generic syntax of a URI

The components of a URI reference are found from left to right: the scheme before the first
colon, the authority after two slashes, the path, the query after a question mark and the
fragment after a hash. Every component ends at the first character that may start a later
one.
-/

namespace Basis

/-- The components of a URI reference. -/
structure UriParts where
  /-- What stands before the first colon. -/
  scheme : Option (List Char)
  /-- What stands after two slashes. -/
  authority : Option (List Char)
  /-- The path. -/
  path : List Char
  /-- What stands after the question mark. -/
  query : Option (List Char)
  /-- What stands after the hash. -/
  fragment : Option (List Char)
deriving DecidableEq

namespace UriParts

/-- The character belongs to the path or to a component before it. -/
def inPath (c : Char) : Bool := c ∉ ['?', '#']

/-- The character may belong to an authority. -/
def inAuthority (c : Char) : Bool := c ∉ ['/', '?', '#']

/-- The character may belong to a scheme. -/
def inScheme (c : Char) : Bool := c ∉ [':', '/', '?', '#']

/-- The scheme and what follows its colon. -/
def cutScheme (s : List Char) : Option (List Char) × List Char :=
  match s.dropWhile inScheme with
  | ':' :: rest =>
    if s.takeWhile inScheme = [] then (none, s) else (some (s.takeWhile inScheme), rest)
  | _ => (none, s)

/-- The authority and what follows it. -/
def cutAuthority : List Char → Option (List Char) × List Char
  | '/' :: '/' :: rest => (some (rest.takeWhile inAuthority), rest.dropWhile inAuthority)
  | s => (none, s)

/-- The query and what follows it. -/
def cutQuery : List Char → Option (List Char) × List Char
  | '?' :: rest => (some (rest.takeWhile (· ≠ '#')), rest.dropWhile (· ≠ '#'))
  | s => (none, s)

/-- The fragment. -/
def cutFragment : List Char → Option (List Char)
  | '#' :: rest => some rest
  | _ => none

/-- Split a URI reference into its components. -/
def split (s : List Char) : UriParts :=
  let (scheme, s) := cutScheme s
  let (authority, s) := cutAuthority s
  let path := s.takeWhile inPath
  let (query, s) := cutQuery (s.dropWhile inPath)
  { scheme, authority, path, query, fragment := cutFragment s }

/-! ## Scheme and path -/

/-- The longest prefix ends in front of the first character that does not belong to it. -/
theorem takeWhile_append_cons {p : Char → Bool} {a : List Char} {c : Char} {rest : List Char}
    (ha : ∀ x ∈ a, p x = true) (hc : p c = false) : (a ++ c :: rest).takeWhile p = a := by
  rw [List.takeWhile_append_of_pos ha, List.takeWhile_cons_of_neg (by simp [hc]), List.append_nil]

/-- What follows the longest prefix starts with the first character that does not belong to it. -/
theorem dropWhile_append_cons {p : Char → Bool} {a : List Char} {c : Char} {rest : List Char}
    (ha : ∀ x ∈ a, p x = true) (hc : p c = false) :
    (a ++ c :: rest).dropWhile p = c :: rest := by
  rw [List.dropWhile_append_of_pos ha, List.dropWhile_cons_of_neg (by simp [hc])]

/-- A character that is not taken stops the text before it. -/
theorem takeWhile_append_stop {p : Char → Bool} {a : List Char} {c : Char} {rest : List Char}
    (hc : p c = false) : (a ++ c :: rest).takeWhile p = a.takeWhile p := by
  induction a with
  | nil => exact List.takeWhile_cons_of_neg (by simp [hc])
  | cons x a ih =>
    rw [List.cons_append, List.takeWhile_cons, List.takeWhile_cons, ih]

/-- A character that stops the prefix hides everything behind it. -/
theorem dropWhile_append_stop {p : Char → Bool} {a : List Char} {c : Char} {rest : List Char}
    (hc : p c = false) : (a ++ c :: rest).dropWhile p = a.dropWhile p ++ c :: rest := by
  induction a with
  | nil => exact List.dropWhile_cons_of_neg (by simp [hc])
  | cons x a ih =>
    rw [List.cons_append, List.dropWhile_cons, List.dropWhile_cons, ih]
    split <;> rfl

/-- What follows a scheme is split as a reference without one. -/
theorem cutScheme_append {name rest : List Char} (hne : name ≠ [])
    (hname : ∀ c ∈ name, inScheme c = true) :
    cutScheme (name ++ ':' :: rest) = (some name, rest) := by
  have hcolon : inScheme ':' = false := rfl
  unfold cutScheme
  rw [dropWhile_append_cons hname hcolon, takeWhile_append_cons hname hcolon]
  exact if_neg hne

/-- A text with a scheme starts with it. The name ends at the first colon and consists of the
characters of schemes. -/
theorem eq_append_of_cutScheme {s name rest : List Char} (h : cutScheme s = (some name, rest)) :
    s = name ++ ':' :: rest ∧ name ≠ [] ∧ ∀ c ∈ name, inScheme c = true := by
  unfold cutScheme at h
  split at h
  · rename_i after hdrop
    split at h
    · cases h
    · rename_i hne
      cases h
      refine ⟨?_, hne, fun c hc => List.mem_takeWhile_imp hc⟩
      rw [← hdrop, List.takeWhile_append_dropWhile]
  · cases h

/-- The scheme is what stands in front of the first colon. -/
theorem split_scheme (s : List Char) : (split s).scheme = (cutScheme s).1 := rfl

/-- The authority is cut off behind the scheme. -/
theorem split_authority (s : List Char) : (split s).authority = (cutAuthority (cutScheme s).2).1 :=
  rfl

/-- The path is what follows the authority, up to the query or the fragment. -/
theorem split_path (s : List Char) :
    (split s).path = (cutAuthority (cutScheme s).2).2.takeWhile inPath := rfl

end UriParts

/-! ## Trailing slashes -/

/-- Remove the slashes at the end of a text. -/
def stripSlashes (s : List Char) : List Char := s.rdropWhile (· = '/')

/-- Slashes are removed from the end: from the first part only if the second one has nothing
else. -/
theorem stripSlashes_append (a b : List Char) :
    stripSlashes (a ++ b) =
      if ∀ c ∈ b, c = '/' then stripSlashes a else a ++ stripSlashes b := by
  unfold stripSlashes List.rdropWhile
  rw [List.reverse_append, List.dropWhile_append]
  have hempty : (List.dropWhile (fun c => decide (c = '/')) b.reverse).isEmpty = true ↔
      ∀ c ∈ b, c = '/' := by
    rw [List.isEmpty_iff, List.dropWhile_eq_nil_iff]
    simp
  by_cases hall : ∀ c ∈ b, c = '/'
  · rw [if_pos (hempty.mpr hall), if_pos hall]
  · rw [if_neg (fun h => hall (hempty.mp h)), if_neg hall]
    simp

/-- Slashes in front of another character are kept. -/
theorem stripSlashes_append_of_not_all (a : List Char) {b : List Char} (h : ¬ ∀ c ∈ b, c = '/') :
    stripSlashes (a ++ b) = a ++ stripSlashes b := by
  rw [stripSlashes_append, if_neg h]

/-- Nothing is left of a text of slashes. -/
theorem stripSlashes_of_all {s : List Char} (h : ∀ c ∈ s, c = '/') : stripSlashes s = [] := by
  have happend := stripSlashes_append [] s
  rw [if_pos h] at happend
  exact happend

/-- A character that is no slash protects itself and what stands in front of it. Only slashes at
the end are stripped. -/
theorem stripSlashes_cons {c : Char} (h : c ≠ '/') (s : List Char) :
    stripSlashes (c :: s) = c :: stripSlashes s := by
  have hsingle : stripSlashes [c] = [c] := by
    unfold stripSlashes
    rw [List.rdropWhile_eq_self_iff]
    intro _
    simp [h]
  rw [← List.singleton_append, stripSlashes_append]
  split
  · rename_i hall
    rw [hsingle, stripSlashes_of_all hall]
  · rfl

/-- What is not removed is followed by slashes only. -/
theorem eq_stripSlashes_append (s : List Char) :
    ∃ slashes : List Char, s = stripSlashes s ++ slashes ∧ ∀ c ∈ slashes, c = '/' := by
  refine ⟨s.rtakeWhile (· = '/'), (List.rdropWhile_append_rtakeWhile).symm, fun c hc => ?_⟩
  simpa using List.mem_rtakeWhile_imp hc

/-- A text without slashes is kept. What is stripped are slashes, and there is none. -/
theorem stripSlashes_of_none {s : List Char} (h : '/' ∉ s) : stripSlashes s = s := by
  obtain ⟨slashes, heq, hall⟩ := eq_stripSlashes_append s
  cases slashes with
  | nil => rw [List.append_nil] at heq; exact heq.symm
  | cons c slashes =>
    have hc : c ∈ s := by
      rw [heq]
      exact List.mem_append_right _ List.mem_cons_self
    exact absurd (hall c List.mem_cons_self ▸ hc) h

namespace UriParts

/-! ## A path under the path of a reference -/

/-- The next segment of a path. -/
structure Segment (segment : List Char) : Prop where
  /-- It starts with a slash and has other characters. -/
  start : ∃ c rest, segment = '/' :: c :: rest ∧ c ≠ '/'
  /-- It has no query and no fragment. -/
  inPath : ∀ c ∈ segment, inPath c = true

variable {rest segment : List Char}

/-- A delimiter behind the path does not change what stands before it. An authority, too, ends at
the first character that cannot be part of it. -/
theorem cutAuthority_append {front : List Char} {d : Char} (hd : inPath d = false) (t : List Char) :
    cutAuthority (front ++ d :: t) =
      ((cutAuthority front).1, (cutAuthority front).2 ++ d :: t) := by
  have hauthority : inAuthority d = false := by
    unfold inPath at hd
    unfold inAuthority
    simp only [decide_eq_false_iff_not, not_not] at hd ⊢
    exact List.mem_cons_of_mem _ hd
  have hslash : d ≠ '/' := by
    rintro rfl
    cases hd
  match front with
  | [] => simp [cutAuthority, hslash]
  | [c] => simp [cutAuthority, hslash]
  | c :: c' :: front =>
    by_cases hc : c = '/' ∧ c' = '/'
    · obtain ⟨rfl, rfl⟩ := hc
      simp only [List.cons_append, cutAuthority]
      rw [takeWhile_append_stop hauthority, dropWhile_append_stop hauthority]
    · have hnone : ∀ l : List Char, cutAuthority (c :: c' :: l) = (none, c :: c' :: l) := by
        intro l
        unfold cutAuthority
        split
        · rename_i heq
          cases heq
          exact absurd ⟨rfl, rfl⟩ hc
        · rfl
      rw [List.cons_append, List.cons_append, hnone, hnone]
      rfl

/-- There is no authority without two slashes. -/
theorem cutAuthority_none {c c' : Char} (h : ¬ (c = '/' ∧ c' = '/')) (t : List Char) :
    cutAuthority (c :: c' :: t) = (none, c :: c' :: t) := by
  unfold cutAuthority
  split
  · rename_i heq
    cases heq
    exact absurd ⟨rfl, rfl⟩ h
  · rfl

/-- There is no authority where the text does not start with a slash. -/
theorem cutAuthority_cons {c : Char} (h : c ≠ '/') (t : List Char) :
    cutAuthority (c :: t) = (none, c :: t) := by
  unfold cutAuthority
  split
  · rename_i heq
    cases heq
    exact absurd rfl h
  · rfl

/-- The path behind an authority is empty or starts with a slash, and with a segment under it
it starts with a slash. -/
theorem stripSlashes_dropWhile {t : List Char} (ht : ∀ c ∈ t, UriParts.inPath c = true)
    (hsegment : Segment segment) :
    ∃ tail, stripSlashes (t.dropWhile inAuthority) ++ segment = '/' :: tail := by
  obtain ⟨first, later, rfl, -⟩ := hsegment.start
  cases hpath : t.dropWhile inAuthority with
  | nil => exact ⟨first :: later, rfl⟩
  | cons d p =>
    have hd : d = '/' := by
      have hmem : d ∈ t := (List.dropWhile_suffix _).subset (hpath ▸ List.mem_cons_self)
      have hin := ht d hmem
      have hout : inAuthority d = false := by
        have hhead := List.head?_dropWhile_not inAuthority t
        rw [hpath] at hhead
        simpa using hhead
      unfold UriParts.inPath at hin
      unfold inAuthority at hout
      simp only [decide_eq_true_eq, decide_eq_false_iff_not, not_not] at hin hout
      exact (List.mem_cons.mp hout).resolve_right hin
    subst hd
    obtain ⟨slashes, heq, -⟩ := eq_stripSlashes_append ('/' :: p)
    cases hstrip : stripSlashes ('/' :: p) with
    | nil => exact ⟨first :: later, rfl⟩
    | cons c rest =>
      rw [hstrip, List.cons_append, List.cons.injEq] at heq
      rw [← heq.1]
      exact ⟨_, rfl⟩

/-- Slashes behind an authority belong to the path. An authority ends in front of the first slash,
so it has none to lose. -/
theorem stripSlashes_cut (t : List Char) :
    stripSlashes t = t.takeWhile inAuthority ++ stripSlashes (t.dropWhile inAuthority) := by
  have hname : '/' ∉ t.takeWhile inAuthority := by
    intro hmem
    have hslash := List.mem_takeWhile_imp hmem
    cases hslash
  conv_lhs => rw [← List.takeWhile_append_dropWhile (p := inAuthority) (l := t)]
  rw [stripSlashes_append]
  split
  · rename_i hall
    rw [stripSlashes_of_all hall, stripSlashes_of_none hname, List.append_nil]
  · rfl

/-- The authority of a text that is not made of slashes stays, when a segment is put under
its path. -/
theorem cutAuthority_extend (hrest : ∀ c ∈ rest, UriParts.inPath c = true)
    (hsegment : Segment segment)
    (hsome : ∀ t, rest = '/' :: '/' :: t → ¬ ∀ c ∈ t, c = '/') :
    cutAuthority (stripSlashes rest ++ segment) =
      ((cutAuthority rest).1, stripSlashes (cutAuthority rest).2 ++ segment) := by
  obtain ⟨first, later, rfl, hfirst⟩ := hsegment.start
  have hsingle : cutAuthority ('/' :: first :: later) = (none, '/' :: first :: later) :=
    cutAuthority_none (fun h => hfirst h.2) later
  match rest with
  | [] => exact hsingle
  | [c] =>
    by_cases hc : c = '/'
    · rw [stripSlashes_of_all (by simpa using hc)]
      simp only [cutAuthority, List.nil_append]
      rw [stripSlashes_of_all (by simpa using hc)]
      exact hsingle
    · rw [stripSlashes_cons hc]
      simp only [cutAuthority, stripSlashes_cons hc]
      exact cutAuthority_none (fun h => hc h.1) _
  | c :: c' :: t =>
    by_cases hauthority : c = '/' ∧ c' = '/'
    · obtain ⟨rfl, rfl⟩ := hauthority
      have ht := hsome t rfl
      have hstrip : stripSlashes ('/' :: '/' :: t) = '/' :: '/' :: stripSlashes t :=
        stripSlashes_append_of_not_all ['/', '/'] ht
      have hinPath : ∀ c ∈ t, UriParts.inPath c = true := fun c hc =>
        hrest c (List.mem_cons_of_mem _ (List.mem_cons_of_mem _ hc))
      obtain ⟨tail, htail⟩ := stripSlashes_dropWhile hinPath hsegment
      have hslash : inAuthority '/' = false := rfl
      have hname : ∀ c ∈ t.takeWhile inAuthority, inAuthority c = true :=
        fun c hc => List.mem_takeWhile_imp hc
      rw [hstrip]
      simp only [cutAuthority, List.cons_append]
      rw [stripSlashes_cut, List.append_assoc, htail, takeWhile_append_cons hname hslash,
        dropWhile_append_cons hname hslash]
    · rw [cutAuthority_none hauthority]
      by_cases hc : c = '/'
      · have hc' : c' ≠ '/' := fun h => hauthority ⟨hc, h⟩
        have hstrip : stripSlashes (c :: c' :: t) = c :: c' :: stripSlashes t := by
          have hnot : ¬ ∀ x ∈ c' :: t, x = '/' := fun h => hc' (h c' List.mem_cons_self)
          rw [← List.singleton_append, stripSlashes_append_of_not_all [c] hnot,
            stripSlashes_cons hc']
          rfl
        rw [hstrip]
        exact cutAuthority_none hauthority _
      · rw [stripSlashes_cons hc]
        exact cutAuthority_cons hc _

/-- What is left behind the authority is the end of the text. -/
theorem cutAuthority_suffix (s : List Char) : (cutAuthority s).2 <:+ s := by
  unfold cutAuthority
  split
  · rename_i t
    exact (List.dropWhile_suffix _).trans ((List.suffix_cons _ _).trans (List.suffix_cons _ _))
  · exact List.suffix_rfl

/-- A path without a delimiter behind it is extended by the segment. The segment has no delimiter
either, and stripping takes away slashes only. -/
theorem path_append (hrest : ∀ c ∈ rest, UriParts.inPath c = true) (hsegment : Segment segment) :
    (stripSlashes (cutAuthority rest).2 ++ segment).takeWhile UriParts.inPath =
      stripSlashes ((cutAuthority rest).2.takeWhile UriParts.inPath) ++ segment := by
  have hpath : ∀ c ∈ (cutAuthority rest).2, UriParts.inPath c = true :=
    fun c hc => hrest c ((cutAuthority_suffix rest).subset hc)
  obtain ⟨slashes, heq, -⟩ := eq_stripSlashes_append (cutAuthority rest).2
  rw [List.takeWhile_eq_self_iff.mpr hpath, List.takeWhile_eq_self_iff]
  intro c hc
  rcases List.mem_append.mp hc with hold | hnew
  · refine hpath c ?_
    rw [heq]
    exact List.mem_append_left _ hold
  · exact hsegment.inPath c hnew

/-- A text that consists of slashes behind its scheme loses its authority. -/
theorem cutAuthority_slashes {t : List Char} (ht : ∀ c ∈ t, c = '/') (hsegment : Segment segment) :
    (cutAuthority (stripSlashes ('/' :: '/' :: t) ++ segment)).1 = none := by
  obtain ⟨first, later, rfl, hfirst⟩ := hsegment.start
  have hall : ∀ c ∈ '/' :: '/' :: t, c = '/' := by simpa using ht
  rw [stripSlashes_of_all hall]
  exact congrArg Prod.fst (cutAuthority_none (fun h => hfirst h.2) later)

/-- What stands behind the path of a reference hides a segment that is put at the end. The segment
lands in the query or in the fragment, so that the path of the result is the old one. -/
theorem path_extend (front : List Char) {d : Char} (hd : UriParts.inPath d = false) (t : List Char)
    (hsegment : Segment segment) :
    (cutAuthority (stripSlashes (front ++ d :: t) ++ segment)).2.takeWhile UriParts.inPath ≠
      stripSlashes ((cutAuthority (front ++ d :: t)).2.takeWhile UriParts.inPath) ++ segment := by
  have hslash : d ≠ '/' := by
    rintro rfl
    cases hd
  have hnot : ¬ ∀ c ∈ d :: t, c = '/' := fun h => hslash (h d List.mem_cons_self)
  rw [stripSlashes_append_of_not_all front hnot, stripSlashes_cons hslash, List.append_assoc,
    List.cons_append, cutAuthority_append hd, cutAuthority_append hd, takeWhile_append_stop hd,
    takeWhile_append_stop hd]
  obtain ⟨first, later, rfl, hfirst⟩ := hsegment.start
  obtain ⟨slashes, heq, hall⟩ :=
    eq_stripSlashes_append ((cutAuthority front).2.takeWhile UriParts.inPath)
  intro hpath
  have hslashes : slashes = '/' :: first :: later := List.append_cancel_left (heq.symm.trans hpath)
  refine hfirst (hall first ?_)
  rw [hslashes]
  exact List.mem_cons_of_mem _ List.mem_cons_self

end UriParts

end Basis
