import NeighborSearch.Proofs.Selection.TopK

/-!
# Working memory that is used again

The rows of a group are selected from in the same working memory, which is not cleared in
between. To compare, a row is taken alone here, in fresh memory (`Selection.selectAlone`).
What is selected from a row is the same in all memory that fits, and the memory fits
again afterwards, so rows do not depend on those before them
(`Selection.selectRow_eq_alone`).
-/

namespace NeighborSearch.Selection

variable {g : Geometry} {ncols k : ℕ} {row bias : Array Single}

/-- Select from a row alone, in fresh working memory. -/
def selectAlone (g : Geometry) (k : ℕ) (bias row : Array Single) :
    Except SelectError (List Candidate) := do
  let fresh ← orFail (Scratch.allocate g)
  let (selected, _) ← selectRow .inOrder g k bias 0 row fresh
  return selected

theorem selectAlone_eq_ok (hg : g.Fits ncols k) (hkn : k ≤ ncols) (hncols : 4 * ncols < Size.limit)
    (hrow : row.size = ncols) (hbias : bias.size = ncols) :
    selectAlone g k bias row = .ok (reference k row.toList bias.toList) := by
  obtain ⟨fresh, hallocate, hfresh⟩ := hg.exists_allocate (by omega)
  obtain ⟨after, hselect, -⟩ := selectRow_eq_ok .inOrder hg hkn hncols hrow hbias 0 hfresh
  rw [selectAlone, hallocate, orFail_ok, ok_bind, hselect]
  rfl

/-- Rows taken alone, one after the other. -/
theorem mapM_selectAlone_eq_ok (hg : g.Fits ncols k) (hkn : k ≤ ncols)
    (hncols : 4 * ncols < Size.limit) (hbias : bias.size = ncols) {rows : List (List Single)}
    (hrows : ∀ row ∈ rows, row.length = ncols) :
    rows.mapM (fun row => selectAlone g k bias row.toArray) =
      .ok (rows.map fun row => reference k row bias.toList) := by
  induction rows with
  | nil => rfl
  | cons row rows ih =>
    have hrow : row.toArray.size = ncols := by simpa using hrows row List.mem_cons_self
    rw [List.mapM_cons, selectAlone_eq_ok hg hkn hncols hrow hbias, ok_bind,
      ih fun row hrow => hrows row (List.mem_cons_of_mem _ hrow)]
    rfl

/-- What is selected from a row does not depend on what the working memory holds, nor on
    the order of the work. So rows that are selected from in the same memory, one after the
    other, come to what each of them comes to alone; and so does every row of a matrix,
    however many rows share their memory. -/
theorem selectRow_eq_alone (ncols k : ℕ) (config : LaunchConfig) (bias : Array Single)
    (hk : 1 ≤ k) (hkn : k ≤ ncols) (hmemory : Size.FitsMemory ncols 4)
    (hbias : bias.size = ncols) :
    (∃ fresh, Scratch.allocate (.fit ncols k config) = .ok fresh ∧
      fresh.Fits (.fit ncols k config)) ∧
    (∀ row : Array Single, row.size = ncols →
      ∃ selected, selected.length = k ∧
        selectAlone (.fit ncols k config) k bias row = .ok selected ∧
        ∀ schedule q (s : Scratch), s.Fits (.fit ncols k config) →
          ∃ after, selectRow schedule (.fit ncols k config) k bias q row s =
            .ok (selected, after) ∧ after.Fits (.fit ncols k config)) ∧
    (∀ schedule q (s : Scratch) (rows : List (List Single)), s.Fits (.fit ncols k config) →
      (∀ row ∈ rows, row.length = ncols) →
      selectRows schedule (.fit ncols k config) k bias q rows s =
        (rows.mapM fun row => selectAlone (.fit ncols k config) k bias row.toArray).map
          List.flatten) ∧
    ∀ m : Matrix Single, m.ncols = ncols → ncols ≤ 2 ^ 32 →
      ∃ t : TopK, (∀ schedule rowsPerGroup,
        fusedTopKUnder schedule m bias k { config with rowsPerGroup } = .ok t) ∧
      ∀ q < m.nrows, ∃ row selected, m.row? q = some row ∧
        selectAlone (.fit ncols k config) k bias row = .ok selected ∧
        t.row? q = some ((selected.map (·.distance)).toArray,
          (selected.map (·.index)).toArray) := by
  have hg := Geometry.fits_fit config hk hkn
  have hncols : 4 * ncols < Size.limit := by
    rw [Size.FitsMemory, Size.memoryLimit] at hmemory
    rw [Size.limit]
    omega
  refine ⟨hg.exists_allocate (by omega), ?_, ?_, ?_⟩
  · intro row hrow
    refine ⟨reference k row.toList bias.toList, ?_, selectAlone_eq_ok hg hkn hncols hrow hbias, ?_⟩
    · rw [length_reference, Array.length_toList, Array.length_toList]
      omega
    · intro schedule q s hs
      exact selectRow_eq_ok schedule hg hkn hncols hrow hbias q hs
  · intro schedule q s rows hs hrows
    rw [selectRows_eq_ok schedule hg hkn hncols hbias q hrows hs,
      mapM_selectAlone_eq_ok hg hkn hncols hbias hrows, List.flatMap]
    rfl
  · rintro m rfl hcols
    refine ⟨referenceTopK m bias k, ?_, ?_⟩
    · intro schedule rowsPerGroup
      exact fusedTopKUnder_eq_reference schedule _ hk hkn hcols hbias
    · intro q hq
      obtain ⟨row, hrow, hlist⟩ := m.exists_row?_eq_some hq
      have hsize : row.size = m.ncols := by
        rw [← Array.length_toList, hlist, Matrix.length_rowList hq]
      refine ⟨row, _, hrow, selectAlone_eq_ok hg hkn hncols hsize hbias, ?_⟩
      rw [hlist]
      exact row?_referenceTopK hkn hbias hq

/-- Memory that an earlier row could have left, with candidates below all others. -/
def staleScratch : Scratch where
  staging := Array.replicate 3 ⟨0xff800000⟩
  front := ⟨Array.replicate 3 (.of ⟨0xff800000⟩ 9), #[1, 1, 1], 3⟩
  back := ⟨Array.replicate 3 (.of ⟨0xff800000⟩ 9), #[2, 1], 2⟩

theorem selectRow_staleScratch :
    ∃ selected after, selected.length = 2 ∧
      selectAlone (.fit 3 2 .standard) 2 (Array.replicate 3 .zero)
        #[⟨0x3f800000⟩, ⟨0x7fc00001⟩, ⟨0x80000000⟩] = .ok selected ∧
      selectRow .inOrder (.fit 3 2 .standard) 2 (Array.replicate 3 .zero) 1
        #[⟨0x3f800000⟩, ⟨0x7fc00001⟩, ⟨0x80000000⟩] staleScratch = .ok (selected, after) := by
  obtain ⟨-, hrow, -⟩ := selectRow_eq_alone 3 2 .standard (Array.replicate 3 .zero) (by decide)
    (by decide) (by decide) rfl
  obtain ⟨selected, hlen, halone, hscratch⟩ := hrow #[⟨0x3f800000⟩, ⟨0x7fc00001⟩, ⟨0x80000000⟩] rfl
  obtain ⟨after, hselect, -⟩ := hscratch .inOrder 1 staleScratch ⟨rfl, rfl, rfl, rfl, rfl⟩
  exact ⟨selected, after, hlen, halone, hselect⟩

end NeighborSearch.Selection
