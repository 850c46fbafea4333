import NeighborSearch.Proofs.Device.Arguments

/-!
# Rows of matrices and of answers

Entries are taken for a matrix exactly if their number is the product of the extents
(`Matrix.exists_ofArray?_eq_ok`, `Matrix.ofArray?_of_ne`). The product is formed as a natural
number, so extents whose product is too large to be a size are refused, whatever its
remainder. Every number that a row is found by is then a size, and the rows tile the entries;
so they do on a device that stores the matrix, and in both parts of whatever a selection
answers (`rows_tile_entries`).
-/

namespace NeighborSearch

namespace Matrix

variable {α : Type} {entries : Array α} {nrows ncols : ℕ}

theorem exists_ofArray?_eq_ok (hsize : entries.size < Size.limit)
    (hshape : nrows * ncols = entries.size) :
    ∃ m : Matrix α, ofArray? entries nrows ncols = .ok m ∧
      m.entries = entries ∧ m.nrows = nrows ∧ m.ncols = ncols := by
  have hmul := Size.mul?_eq_some_iff.2 ⟨hshape ▸ hsize, hshape⟩
  exact ⟨⟨entries, nrows, ncols, hmul⟩, dif_pos hmul, rfl, rfl, rfl⟩

theorem ofArray?_of_ne (hshape : nrows * ncols ≠ entries.size) :
    ofArray? entries nrows ncols = .error ⟨entries.size, nrows, ncols⟩ :=
  dif_neg fun hmul => hshape (Size.mul?_eq_some_iff.1 hmul).2

end Matrix

namespace Selection

variable {schedule : Schedule} {m : Matrix Single} {bias : Array Single} {k : ℕ}
  {config : LaunchConfig} {t : TopK}

/-- A selection that has an answer has accepted its arguments, and has found what sorting
    finds. -/
theorem eq_referenceTopK_of_eq_ok (h : fusedTopKUnder schedule m bias k config = .ok t) :
    checkArguments m.ncols bias.size k = .ok () ∧ t = referenceTopK m bias k := by
  cases hcheck : checkArguments m.ncols bias.size k with
  | error e =>
    rw [fusedTopKUnder_def, hcheck] at h
    cases h
  | ok =>
    obtain ⟨hk, hkn, hbias, hcols⟩ := checkArguments_eq_ok_iff.1 hcheck
    rw [fusedTopKUnder_eq_reference schedule config hk hkn hcols hbias] at h
    exact ⟨rfl, (Except.ok.inj h).symm⟩

/-- So has one that has got all the memory it asked for. -/
theorem fusedTopKUnder_of_granted {granted : Grants}
    (h : fusedTopKGranted granted schedule m bias k config = .ok t) :
    fusedTopKUnder schedule m bias k config = .ok t := by
  rcases fusedTopKGranted_orShort granted schedule m bias k config with hsame | ⟨bytes, hshort⟩
  · rw [← hsame, h]
  · rw [h] at hshort
    cases hshort

end Selection

open Selection

/-- The entries are those of the matrix, and its rows tile them. -/
structure Matrix.Tiles {α : Type} (m : Matrix α) (entries : Array α) (nrows ncols : ℕ) :
    Prop where
  entries_eq : m.entries = entries
  nrows_eq : m.nrows = nrows
  ncols_eq : m.ncols = ncols
  /-- The places where a row begins and where it ends are sizes within the entries. -/
  sizes : ∀ q < nrows, Size.mul? q ncols = some (ncols * q) ∧
    Size.add? (ncols * q) ncols = some (ncols * q + ncols) ∧ ncols * q + ncols ≤ entries.size
  tiled : TiledBy entries nrows ncols m.row?

/-- The rows of the answer of a selection tile its distances and its columns. -/
structure TopK.Tiles (t : TopK) (nrows k : ℕ) : Prop where
  nrows_eq : t.nrows = nrows
  k_eq : t.k = k
  /-- Rows are found without a number that is not a size. -/
  sizes : ∀ q < t.nrows, q + 1 < Size.limit ∧ Size.mul? q t.k = some (q * t.k) ∧
    Size.mul? (q + 1) t.k = some ((q + 1) * t.k)
  distances : TiledBy t.distances t.nrows t.k fun q => (t.row? q).map (·.1)
  indices : TiledBy t.indices t.nrows t.k fun q => (t.row? q).map (·.2)

/-- Wherever there are rows, they tile the entries. -/
structure RowsTile : Prop where
  /-- Entries are taken for a matrix if their number is the product of the extents. -/
  made : ∀ (α : Type) (entries : Array α) (nrows ncols : ℕ), entries.size < Size.limit →
    nrows * ncols = entries.size →
    ∃ m : Matrix α, Matrix.ofArray? entries nrows ncols = .ok m ∧ m.Tiles entries nrows ncols
  /-- Otherwise they are refused. -/
  refused : ∀ (α : Type) (entries : Array α) (nrows ncols : ℕ), entries.size < Size.limit →
    nrows * ncols ≠ entries.size →
    Matrix.ofArray? entries nrows ncols = .error ⟨entries.size, nrows, ncols⟩
  /-- A device stores the same entries, and shows the same rows. -/
  stored : ∀ (config : LaunchConfig) (s : Store) (name : String) (entries : Array Single)
    (nrows ncols : ℕ), entries.size < Size.limit → nrows * ncols = entries.size →
    ∃ (stored : Store) (row? : ℕ → Option (Array Single)),
      s.perform config (.matrix name entries nrows ncols) = (stored, .extents nrows ncols) ∧
      (∀ q, stored.perform config (.row name q) = (stored, .row (row? q))) ∧
      TiledBy entries nrows ncols row?
  /-- It refuses the same entries, and stores nothing. -/
  misshapen : ∀ (config : LaunchConfig) (s : Store) (name : String) (entries : Array Single)
    (nrows ncols : ℕ), entries.size < Size.limit → nrows * ncols ≠ entries.size →
    s.perform config (.matrix name entries nrows ncols) =
      (s, .misshapen ⟨entries.size, nrows, ncols⟩)
  /-- Whatever a selection answers, with all or some of its memory granted, has rows. -/
  selected : ∀ (granted : Grants) (schedule : Schedule) (config : LaunchConfig)
    (m : Matrix Single) (bias : Array Single) (k : ℕ) (t : TopK),
    fusedTopKUnder schedule m bias k config = .ok t ∨
      fusedTopKGranted granted schedule m bias k config = .ok t →
    t.Tiles m.nrows k

/-- Entries, of which there are as many as a size can count, are taken for a matrix if and only
    if their number is the product of the extents, and the rows of matrices and of answers tile
    their entries. -/
theorem rows_tile_entries : RowsTile where
  made α entries nrows ncols hsize hshape := by
    obtain ⟨m, hmade, rfl, rfl, rfl⟩ := Matrix.exists_ofArray?_eq_ok hsize hshape
    exact ⟨m, hmade, rfl, rfl, rfl, fun q hq => ⟨Matrix.mul?_ncols hq, Matrix.add?_ncols hq,
      Matrix.mul_ncols_le hq⟩, m.tiledBy_row?⟩
  refused α entries nrows ncols _ hshape := Matrix.ofArray?_of_ne hshape
  stored config s name entries nrows ncols hsize hshape := by
    obtain ⟨m, hmade, rfl, rfl, rfl⟩ := Matrix.exists_ofArray?_eq_ok hsize hshape
    refine ⟨{ s with matrices := s.matrices.put name m }, m.row?, ?_, fun q => ?_, m.tiledBy_row?⟩
    · rw [Store.perform, hmade]
    · simp only [Store.perform, Bindings.get?_put_self]
  misshapen config s name entries nrows ncols _ hshape := by
    rw [Store.perform, Matrix.ofArray?_of_ne hshape]
  selected granted schedule config m bias k t h := by
    obtain ⟨hcheck, rfl⟩ := eq_referenceTopK_of_eq_ok (h.elim id fusedTopKUnder_of_granted)
    obtain ⟨hk, hkn, hbias, -⟩ := checkArguments_eq_ok_iff.1 hcheck
    have hshaped := shaped_referenceTopK hkn hbias
    refine ⟨rfl, rfl, fun q hq => ⟨?_, hshaped.mul?_k hq.le, hshaped.mul?_k hq⟩,
      hshaped.tiledBy_distances, hshaped.tiledBy_indices⟩
    -- A row has at least one entry, so there are no more rows than entries.
    exact ((Nat.succ_le_of_lt hq).trans (Nat.le_mul_of_pos_right _ hk)).trans_lt hshaped.lt_limit

/-- Extents whose product leaves the remainder 2 are refused for two entries, and no entries
    make as many rows without a column as can be numbered. Of two rows of three columns, a
    selection has two rows. -/
theorem rows_tile_wrappedExtents :
    (#[7, 8].size < Size.limit ∧ (2 ^ 63 + 1) * 2 ≠ #[7, 8].size ∧
      (2 ^ 63 + 1) * 2 % Size.limit = #[7, 8].size ∧
      Matrix.ofArray? #[7, 8] (2 ^ 63 + 1) 2 = .error ⟨2, 2 ^ 63 + 1, 2⟩) ∧
    ((#[] : Array ℕ).size < Size.limit ∧ (2 ^ 64 - 1) * 0 = (#[] : Array ℕ).size ∧
      ∃ m : Matrix ℕ, Matrix.ofArray? #[] (2 ^ 64 - 1) 0 = .ok m ∧
        (m.row? (2 ^ 64 - 2)).isSome ∧ ¬(m.row? (2 ^ 64 - 1)).isSome) ∧
    ∃ t, fusedTopK twoRows #[.zero, ⟨0x3f800000⟩, .zero] 2 .standard = .ok t ∧
      (t.row? 1).isSome ∧ ¬(t.row? 2).isSome := by
  have htiles := rows_tile_entries
  have hwrapped : #[7, 8].size < Size.limit := by decide
  have hempty : (#[] : Array ℕ).size < Size.limit := by decide
  refine ⟨⟨hwrapped, by decide, by decide, ?_⟩, ⟨hempty, rfl, ?_⟩, ?_⟩
  · exact htiles.refused ℕ #[7, 8] (2 ^ 63 + 1) 2 hwrapped (by decide)
  · obtain ⟨m, hmade, hm⟩ := htiles.made ℕ #[] (2 ^ 64 - 1) 0 hempty rfl
    exact ⟨m, hmade, (hm.tiled.isSome_iff _).2 (by decide), fun h =>
      absurd ((hm.tiled.isSome_iff _).1 h) (by decide)⟩
  · have hsorted : fusedTopK twoRows #[.zero, ⟨0x3f800000⟩, .zero] 2 .standard =
        .ok (referenceTopK twoRows #[.zero, ⟨0x3f800000⟩, .zero] 2) :=
      fusedTopKUnder_eq_reference .inOrder .standard (by decide) (by decide) (by decide) rfl
    have hanswer := htiles.selected (fun _ => true) .inOrder .standard twoRows _ 2 _ (.inl hsorted)
    have hrow := hanswer.distances.isSome_iff
    simp only [Option.isSome_map, hanswer.nrows_eq] at hrow
    exact ⟨_, hsorted, (hrow 1).2 (by decide), fun h => absurd ((hrow 2).1 h) (by decide)⟩

end NeighborSearch
