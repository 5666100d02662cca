import MarkdownDocx.Text.Blank

/-!
Lines between line feeds. Cutting a text and joining lines are inverse to each other: the lines of
a text hold no line feed, and any lines without one are the lines of the text that they make.
-/

set_option autoImplicit false

namespace MarkdownDocx.Text

theorem joinFeeds_cons (l : List Char) {ls : List (List Char)} (h : ls ≠ []) :
    joinFeeds (l :: ls) = l ++ '\n' :: joinFeeds ls := by
  cases ls with
  | nil => exact absurd rfl h
  | cons k ls => rfl

theorem splitFeeds_cons {c : Char} (hc : c ≠ '\n') {cs l : List Char} {ls : List (List Char)}
    (h : splitFeeds cs = l :: ls) : splitFeeds (c :: cs) = (c :: l) :: ls := by
  rw [splitFeeds, if_neg hc, h]

theorem exists_splitFeeds (cs : List Char) : ∃ l ls, splitFeeds cs = l :: ls :=
  List.exists_cons_of_ne_nil (splitFeeds_ne_nil cs)

theorem not_mem_of_mem_splitFeeds {cs l : List Char} (h : l ∈ splitFeeds cs) : '\n' ∉ l := by
  induction cs generalizing l with
  | nil =>
    obtain rfl : l = [] := by simpa [splitFeeds] using h
    simp
  | cons c r ih =>
    by_cases hc : c = '\n'
    · rw [splitFeeds, if_pos hc, List.mem_cons] at h
      rcases h with rfl | h
      · simp
      · exact ih h
    · obtain ⟨k, ks, hr⟩ := exists_splitFeeds r
      rw [splitFeeds_cons hc hr] at h
      rw [hr] at ih
      rcases List.mem_cons.1 h with rfl | h
      · have hk := ih (by simp : k ∈ k :: ks)
        simp [hk, Ne.symm hc]
      · exact ih (.tail _ h)

theorem splitFeeds_of_noFeed {l : List Char} (h : '\n' ∉ l) : splitFeeds l = [l] := by
  induction l with
  | nil => rfl
  | cons c r ih =>
    have hc : c ≠ '\n' := fun heq => h (by simp [heq])
    exact splitFeeds_cons hc (ih fun hmem => h (.tail _ hmem))

theorem splitFeeds_append {l : List Char} (h : '\n' ∉ l) (cs : List Char) :
    splitFeeds (l ++ '\n' :: cs) = l :: splitFeeds cs := by
  induction l with
  | nil => simp [splitFeeds]
  | cons c r ih =>
    have hc : c ≠ '\n' := fun heq => h (by simp [heq])
    exact splitFeeds_cons hc (ih fun hmem => h (.tail _ hmem))

/-- Joining loses nothing either. -/
theorem splitFeeds_joinFeeds {ls : List (List Char)} (hne : ls ≠ [])
    (h : ∀ l ∈ ls, '\n' ∉ l) : splitFeeds (joinFeeds ls) = ls := by
  induction ls with
  | nil => exact absurd rfl hne
  | cons l ls ih =>
    have hl := h l (by simp)
    by_cases hls : ls = []
    · rw [hls]
      exact splitFeeds_of_noFeed hl
    · rw [joinFeeds_cons l hls, splitFeeds_append hl, ih hls fun k hk => h k (.tail _ hk)]

/-- Lines, each after a line feed. -/
def feeds (ls : List (List Char)) : List Char := ls.flatMap ('\n' :: ·)

theorem feeds_cons (l : List Char) (ls : List (List Char)) :
    feeds (l :: ls) = '\n' :: (l ++ feeds ls) := rfl

theorem feeds_append (ks ls : List (List Char)) : feeds (ks ++ ls) = feeds ks ++ feeds ls :=
  List.flatMap_append

theorem feeds_eq {ls : List (List Char)} (h : ls ≠ []) : feeds ls = '\n' :: joinFeeds ls := by
  induction ls with
  | nil => exact absurd rfl h
  | cons l ls ih =>
    by_cases hls : ls = []
    · subst hls
      simp [feeds, joinFeeds]
    · rw [feeds_cons, ih hls, joinFeeds_cons l hls]

/-- Where no line ends with a return, line ends are feeds already. -/
theorem unifyFeeds_of_not_mem {cs : List Char} (h : '\r' ∉ cs) : unifyFeeds cs = cs := by
  fun_induction unifyFeeds cs with
  | case1 => rfl
  | case2 r ih => exact absurd List.mem_cons_self h
  | case3 c r hne ih =>
    rw [List.mem_cons, not_or] at h
    rw [if_neg (Ne.symm h.1), ih h.2]

end MarkdownDocx.Text
