import SolMachine.Proofs.Layout

/-!
# Finding lines by search

* `partitionPoint_eq` : the search ends where the predicate turns;
* `StartsLine` : characters that stand in a text at the start of a line; lines do
  (`startsLine_of_mem_lines`);
* `lineOf_eq`, `lineOf_ofText` : the line of a byte is the last one that starts before it, which is the
  one that it lies in;
* `Ascending.find` : in an ascending table, the search ends at the number that is looked for.
-/

namespace SolMachine.Text

/-! ## The search -/

theorem partitionPoint_eq {p : Nat → Bool} {lo hi k : Nat} (hlo : lo ≤ k) (hhi : k ≤ hi)
    (hbefore : ∀ i, lo ≤ i → i < k → p i = true) (hbehind : ∀ i, k ≤ i → i < hi → p i = false) :
    partitionPoint p lo hi = k := by
  induction lo, hi using partitionPoint.induct p with
  | case1 lo hi h mid hmid ih =>
    have hmk : mid < k := Nat.lt_of_not_le fun hle => by
      rw [hbehind mid hle (by omega)] at hmid
      cases hmid
    rw [partitionPoint, if_pos h, if_pos hmid]
    exact ih hmk hhi (fun i hi => hbefore i (by omega)) hbehind
  | case2 lo hi h mid hmid ih =>
    have hkm : k ≤ mid := Nat.le_of_not_lt fun hlt => hmid (hbefore mid (by omega) hlt)
    rw [partitionPoint, if_pos h, if_neg hmid]
    exact ih hlo hkm hbefore fun i hk hi => hbehind i hk (by omega)
  | case3 lo hi h =>
    rw [partitionPoint, if_neg h]
    omega

/-! ## Ascending tables -/

/-- The numbers of the table increase. -/
def Ascending (xs : Array Nat) : Prop := xs.toList.Pairwise (· < ·)

/-- The search for a number of an ascending table ends where it stands. -/
theorem Ascending.find {xs : Array Nat} (h : Ascending xs) {i x : Nat} (hx : xs[i]? = some x) :
    partitionPoint (fun i => (xs[i]?.map fun k => decide (k < x)).getD false) 0 xs.size = i := by
  obtain ⟨hi, rfl⟩ := Array.getElem?_eq_some_iff.1 hx
  refine partitionPoint_eq (Nat.zero_le i) (Nat.le_of_lt hi) (fun j _ hj => ?_) fun j hj hlt => ?_
  · have hlt : xs[j] < xs[i] := List.pairwise_iff_getElem.1 h j i (by simp; omega) (by simpa) hj
    simp [Array.getElem?_eq_getElem (Nat.lt_trans hj hi), hlt]
  · have hle : xs[i] ≤ xs[j] := by
      rcases Nat.eq_or_lt_of_le hj with rfl | hij
      · exact Nat.le_refl _
      · exact Nat.le_of_lt (List.pairwise_iff_getElem.1 h i j (by simpa) (by simpa) hij)
    simp [Array.getElem?_eq_getElem hlt, hle]

/-! ## Where lines stand -/

/-- The characters `part` begin at byte `start` of the text `cs`, where a line starts. -/
def StartsLine (cs : List Char) (start : Nat) (part : List Char) : Prop :=
  ∃ before after, cs = before ++ part ++ after ∧ start = byteLength before ∧
    (before = [] ∨ ∃ earlier, before = earlier ++ ['\n'])

theorem StartsLine.left {cs part rest : List Char} {start : Nat}
    (h : StartsLine cs start (part ++ rest)) : StartsLine cs start part := by
  obtain ⟨before, after, rfl, hstart, hbefore⟩ := h
  exact ⟨before, rest ++ after, by simp only [List.append_assoc], hstart, hbefore⟩

/-- A line behind other text that a line feed ends. -/
theorem StartsLine.behind {cs part : List Char} {start : Nat} (h : StartsLine cs start part)
    (line : List Char) :
    StartsLine (line ++ '\n' :: cs) (byteLength line + 1 + start) part := by
  obtain ⟨before, after, rfl, rfl, hbefore⟩ := h
  have hfeed : '\n'.utf8Size = 1 := by decide
  refine ⟨line ++ '\n' :: before, after, by simp, ?_, .inr ?_⟩
  · rw [byteLength_append, byteLength_cons, hfeed, Nat.add_assoc]
  · rcases hbefore with rfl | ⟨earlier, rfl⟩
    · exact ⟨line, rfl⟩
    · exact ⟨line ++ '\n' :: earlier, by simp⟩

theorem startsLine_of_mem_locate {ls : List (List Char)} {base : Nat} {l : Line}
    (hl : l ∈ locate base ls) :
    ∃ start, l.start = base + start ∧ StartsLine (['\n'].intercalate ls) start l.chars := by
  induction ls generalizing base with
  | nil => cases hl
  | cons cs ls ih =>
    rcases List.mem_cons.1 hl with rfl | hl
    · refine ⟨0, rfl, [], ['\n'].intercalate (cs :: ls) |>.drop cs.length, ?_, rfl, .inl rfl⟩
      cases ls <;> simp [List.intercalate]
    · cases ls with
      | nil => cases hl
      | cons ds rest =>
        obtain ⟨start, hstart, hline⟩ := ih hl
        refine ⟨byteLength cs + 1 + start, by omega, ?_⟩
        rw [show ['\n'].intercalate (cs :: ds :: rest) = cs ++ '\n' :: ['\n'].intercalate (ds :: rest)
          from by simp [List.intercalate]]
        exact hline.behind cs

/-- The lines of a text stand in it, each at the start of a line. -/
theorem startsLine_of_mem_lines {cs : List Char} {l : Line} (hl : l ∈ lines cs) :
    StartsLine cs l.start l.chars := by
  obtain ⟨start, hstart, hline⟩ := startsLine_of_mem_locate hl
  rwa [List.intercalate_splitOn, ← Nat.zero_add start, ← hstart] at hline

theorem marks_of_mem_lines {cs : List Char} {l : Line} (hl : l ∈ lines cs) :
    (Span.ofChars l.start l.chars).Marks 0 cs l.chars := by
  obtain ⟨before, after, hcs, hstart, -⟩ := startsLine_of_mem_lines hl
  exact ⟨before, after, hcs, by rw [hstart, Nat.zero_add]⟩

/-! ## The line of a byte -/

/-- A byte belongs to the last line that starts at it or before it. -/
theorem lineOf_eq {cs : List Char} {i index : Nat} {l : Line} (hl : (lines cs)[i]? = some l)
    (hstart : l.start ≤ index) (hnext : ∀ k, (lines cs)[i + 1]? = some k → index < k.start) :
    (SourceMap.ofText cs).lineOf index = i := by
  have hpair := (Assembly.pairwise_locate 0 (cs.splitOn '\n')).2
  have hapart : ∀ j k (hjk : j ≤ k) (hk : k < (lines cs).length),
      (lines cs)[j].start ≤ (lines cs)[k].start := fun j k hjk hk => by
    rcases Nat.eq_or_lt_of_le hjk with rfl | hlt
    · exact Nat.le_refl _
    · have hstop := List.pairwise_iff_getElem.1 hpair j k (Nat.lt_trans hlt hk) hk hlt
      exact Nat.le_of_lt (Nat.lt_of_le_of_lt (Nat.le_add_right _ _) hstop)
  obtain ⟨hi, rfl⟩ := List.getElem?_eq_some_iff.1 hl
  have hsize : (SourceMap.ofText cs).lines.size = (lines cs).length := rfl
  have hget : ∀ j, (SourceMap.ofText cs).lines[j]? = (lines cs)[j]? :=
    fun j => List.getElem?_toArray
  unfold SourceMap.lineOf
  simp only [hget, hsize]
  rw [partitionPoint_eq (k := i + 1) (by omega) (by omega) (fun j _ hj => ?_) fun j hj hlt => ?_]
  · rfl
  · have hle := Nat.le_trans (hapart j i (Nat.le_of_lt_succ hj) hi) hstart
    simp [List.getElem?_eq_getElem (show j < (lines cs).length by omega), hle]
  · have hbehind := hnext _ (List.getElem?_eq_getElem (show i + 1 < (lines cs).length by omega))
    have := hapart (i + 1) j hj hlt
    simp only [List.getElem?_eq_getElem hlt, Option.map_some, Option.getD_some,
      decide_eq_false_iff_not]
    omega

/-- The next line starts behind the end of a line. -/
theorem stop_lt_start {cs : List Char} {i : Nat} {l k : Line} (hl : (lines cs)[i]? = some l)
    (hk : (lines cs)[i + 1]? = some k) : l.stop < k.start := by
  obtain ⟨hi, rfl⟩ := List.getElem?_eq_some_iff.1 hl
  obtain ⟨hnext, rfl⟩ := List.getElem?_eq_some_iff.1 hk
  exact List.pairwise_iff_getElem.1 (Assembly.pairwise_locate 0 (cs.splitOn '\n')).2 i (i + 1) hi hnext
    (Nat.lt_succ_self i)

/-- The line of a byte is the one that it lies in; the line feed counts for the line before it. -/
theorem lineOf_ofText {cs : List Char} {i index : Nat} {l : Line} (hl : (lines cs)[i]? = some l)
    (hstart : l.start ≤ index) (hstop : index ≤ l.stop) : (SourceMap.ofText cs).lineOf index = i :=
  lineOf_eq hl hstart fun _ hk => Nat.lt_of_le_of_lt hstop (stop_lt_start hl hk)

end SolMachine.Text
