import Rtai.Lib.Tiling

/-!
# What lies in free blocks

`Within` says that a header and the bytes behind it lie in one free block, whatever it has
been joined with.  A block that is freed is within a free block from then on, until a
request is served from there.  It is the head of that block if no free block touched it
before.
-/

namespace Rtai.Lib

variable {hdr unit req a b f n k : Nat} {t : Tile} {ts ts' : List Tile}

theorem frees_free (free : t.used = false) :
    frees hdr a (t :: ts) = (a, t.size) :: frees hdr (a + t.span hdr) ts := by
  rw [frees, if_neg (by simp [free])]

/-- The header at `f` and the `n` bytes behind it are in a free block. -/
def Within (hdr a : Nat) (ts : List Tile) (f n : Nat) : Prop :=
  ∃ g k, (g, k) ∈ frees hdr a ts ∧ g ≤ f ∧ f + n ≤ g + k

theorem Within.of_mem (mem : (f, n) ∈ frees hdr a ts) : Within hdr a ts f n :=
  ⟨f, n, mem, Nat.le_refl f, Nat.le_refl _⟩

theorem mem_frees_behind (mem : (f, n) ∈ frees hdr (a + t.span hdr) ts) :
    (f, n) ∈ frees hdr a (t :: ts) := by
  rw [frees]
  split
  · exact mem
  · exact List.mem_cons_of_mem _ mem

theorem Within.behind (h : Within hdr (a + t.span hdr) ts f n) : Within hdr a (t :: ts) f n := by
  obtain ⟨g, k, mem, low, high⟩ := h
  exact ⟨g, k, mem_frees_behind mem, low, high⟩

/-- What is within a block that is within another. -/
theorem Within.trans {g a' : Nat} (h : Within hdr a' ts' g k) (low : g ≤ f) (high : f + n ≤ g + k) :
    Within hdr a' ts' f n := by
  obtain ⟨g', k', mem, low', high'⟩ := h
  exact ⟨g', k', mem, Nat.le_trans low' low, Nat.le_trans high high'⟩

theorem Within.join (h : Within hdr a ts f n) : Within hdr a (join hdr ts) f n := by
  obtain ⟨g, k, mem, low, high⟩ := h
  refine Within.trans ?_ low high
  rcases ts with _ | ⟨t, _ | ⟨u, ts⟩⟩
  · exact .of_mem mem
  · exact .of_mem mem
  · rw [Lib.join]
    split
    next both =>
      obtain ⟨⟨free, lost⟩, free'⟩ := both
      have e : a + Tile.span hdr ⟨false, t.size + hdr + u.size, u.lost⟩ =
          a + t.span hdr + u.span hdr := by
        simp only [Tile.span, lost]
        omega
      have joined : frees hdr a (⟨false, t.size + hdr + u.size, u.lost⟩ :: ts) =
          (a, t.size + hdr + u.size) :: frees hdr (a + t.span hdr + u.span hdr) ts := by
        rw [frees, if_neg Bool.false_ne_true, e]
      rw [Within, joined]
      rw [frees, if_neg (by simp [free]), frees, if_neg (by simp [free'])] at mem
      simp only [List.mem_cons, Prod.mk.injEq] at mem
      rcases mem with ⟨rfl, rfl⟩ | ⟨rfl, rfl⟩ | mem
      · exact ⟨g, _, List.mem_cons_self, Nat.le_refl g, by omega⟩
      · refine ⟨a, _, List.mem_cons_self, Nat.le_add_right .., ?_⟩
        simp only [Tile.span, lost]
        omega
      · exact ⟨g, k, List.mem_cons_of_mem _ mem, Nat.le_refl g, Nat.le_refl _⟩
    next => exact .of_mem mem

/-! ## A block is freed -/

/-- A free block is in a free block after another is freed. -/
theorem Within.release (h : Within hdr a ts f n) : Within hdr a (release hdr b a ts) f n := by
  obtain ⟨g, k, mem, low, high⟩ := h
  refine Within.trans ?_ low high
  induction ts generalizing a with
  | nil => exact .of_mem mem
  | cons t ts ih =>
      rw [Lib.release]
      rw [frees] at mem
      split
      · refine Within.join (.of_mem ?_)
        rw [frees_free rfl]
        split at mem
        · exact List.mem_cons_of_mem _ mem
        · exact mem
      · refine Within.join ?_
        split at mem
        · exact (ih mem).behind
        next free =>
          rcases List.mem_cons.mp mem with here | mem
          · refine .of_mem ?_
            rw [frees, if_neg free, here]
            exact List.mem_cons_self
          · exact (ih mem).behind

/-- A block in use is the first, or behind it. -/
theorem blocks_cases (mem : (b + hdr, n) ∈ blocks hdr a (t :: ts)) :
    (a = b ∧ t.used = true ∧ t.size = n) ∨
      (a + t.span hdr ≤ b ∧ (b + hdr, n) ∈ blocks hdr (a + t.span hdr) ts) := by
  have behind (mem : (b + hdr, n) ∈ blocks hdr (a + t.span hdr) ts) :
      a + t.span hdr ≤ b ∧ (b + hdr, n) ∈ blocks hdr (a + t.span hdr) ts :=
    ⟨Nat.le_of_add_le_add_right (blocks_ge mem), mem⟩
  rw [blocks] at mem
  split at mem
  next used =>
    rcases List.mem_cons.mp mem with here | mem
    · obtain ⟨place, size⟩ := Prod.mk.inj here
      exact .inl ⟨(Nat.add_right_cancel place).symm, used, size.symm⟩
    · exact .inr (behind mem)
  next => exact .inr (behind mem)

theorem release_here : release hdr a a (t :: ts) = join hdr ({ t with used := false } :: ts) :=
  if_pos rfl

theorem release_behind (later : a + t.span hdr ≤ b) (positive : 0 < hdr) :
    release hdr b a (t :: ts) = join hdr (t :: release hdr b (a + t.span hdr) ts) := by
  refine if_neg ?_
  simp only [Tile.span] at later
  omega

section

variable (positive : 0 < hdr) (mem : (b + hdr, n) ∈ blocks hdr a ts)
include positive mem

/-- The block that is freed is in a free block. -/
theorem Within.freed : Within hdr a (Lib.release hdr b a ts) b n := by
  induction ts generalizing a with
  | nil => cases mem
  | cons t ts ih =>
      rcases blocks_cases mem with ⟨rfl, -, rfl⟩ | ⟨later, mem⟩
      · rw [release_here]
        refine Within.join (.of_mem ?_)
        rw [frees_free rfl]
        exact List.mem_cons_self
      · rw [release_behind later positive]
        exact (ih mem).behind.join

/-- It is joined with the free block that touches it. -/
theorem Within.freed_joined (free : (f, k) ∈ frees hdr a ts) (touches : f + hdr + k = b) :
    Within hdr a (Lib.release hdr b a ts) f (k + hdr + n) := by
  induction ts generalizing a with
  | nil => cases mem
  | cons t ts ih =>
      rw [frees] at free
      rcases blocks_cases mem with ⟨rfl, used, -⟩ | ⟨later, mem⟩
      · rw [if_pos used] at free
        have := frees_ge free
        simp only [Tile.span] at this
        omega
      · rw [release_behind later positive]
        split at free
        · exact (ih mem free).behind.join
        next unused =>
          rcases List.mem_cons.mp free with here | free
          · obtain ⟨rfl, rfl⟩ := Prod.mk.inj here
            have lost : t.lost = 0 := by
              simp only [Tile.span] at later
              omega
            have next : f + t.span hdr = b := by
              simp only [Tile.span]
              omega
            rw [next] at mem ⊢
            have unused : t.used = false := Bool.eq_false_of_not_eq_true unused
            cases ts with
            | nil => cases mem
            | cons u ts =>
                rcases blocks_cases mem with ⟨-, -, rfl⟩ | ⟨later', -⟩
                · rw [release_here, join_join ⟨unused, lost⟩ rfl]
                  refine Within.join (.of_mem ?_)
                  rw [frees_free rfl]
                  refine List.mem_cons.mpr (.inl (Prod.ext rfl ?_))
                  show t.size + hdr + u.size = t.size + hdr + u.size
                  rfl
                · simp only [Tile.span] at later'
                  omega
          · exact (ih mem free).behind.join

/-- It is the head of a free block if no free block touches it before. -/
theorem release_head (apart : ∀ f k, (f, k) ∈ frees hdr a ts → f + hdr + k ≠ b) :
    ∃ k, (b, k) ∈ frees hdr a (release hdr b a ts) ∧ n ≤ k := by
  induction ts generalizing a with
  | nil => cases mem
  | cons t ts ih =>
      rcases blocks_cases mem with ⟨rfl, -, -⟩ | ⟨later, behind⟩
      · obtain ⟨g, k, free, low, high⟩ := Within.freed positive mem
        obtain rfl : g = a := Nat.le_antisymm low (frees_ge free)
        exact ⟨k, free, Nat.le_of_add_le_add_left high⟩
      · have apart' (f k : Nat) (free : (f, k) ∈ frees hdr (a + t.span hdr) ts) :
            f + hdr + k ≠ b := by
          refine apart f k ?_
          rw [frees]
          split
          · exact free
          · exact List.mem_cons_of_mem _ free
        obtain ⟨k, free, large⟩ := ih behind apart'
        refine ⟨k, ?_, large⟩
        rw [release_behind later positive]
        generalize release hdr b (a + t.span hdr) ts = rest at free
        rcases rest with _ | ⟨u, us⟩
        · cases free
        · rw [join]
          split
          next both =>
            obtain ⟨⟨unused, lost⟩, unused'⟩ := both
            rw [frees_free unused'] at free
            rcases List.mem_cons.mp free with here | free
            · refine absurd ?_ (apart a t.size ?_)
              · rw [(Prod.mk.inj here).1]
                simp only [Tile.span, lost]
                omega
              · rw [frees_free unused]
                exact List.mem_cons_self
            · rw [frees_free rfl]
              refine List.mem_cons_of_mem _ ?_
              have e : a + Tile.span hdr ⟨false, t.size + hdr + u.size, u.lost⟩ =
                  a + t.span hdr + u.span hdr := by
                simp only [Tile.span, lost]
                omega
              rw [e]
              exact free
          next => exact mem_frees_behind free

end

/-! ## A request is served -/

/-- The free block that serves a request. -/
theorem take_free (taken : take hdr unit req a ts = some (b, ts')) :
    ∃ k, (b, k) ∈ frees hdr a ts ∧ req ≤ k := by
  induction ts generalizing a ts' with
  | nil => cases taken
  | cons t ts ih =>
      rw [take] at taken
      split at taken
      next found =>
        cases taken
        refine ⟨t.size, ?_, found.2⟩
        rw [frees_free found.1]
        exact List.mem_cons_self
      next =>
        obtain ⟨r, taken', e⟩ := Option.map_eq_some_iff.mp taken
        cases e
        obtain ⟨k, free, room⟩ := ih taken'
        exact ⟨k, mem_frees_behind free, room⟩

theorem frees_cut (room : req ≤ t.size) :
    frees hdr a (cut hdr unit req t ++ ts) =
      if t.size - req ≥ hdr + unit then
        (a + hdr + req, t.size - (req + hdr)) :: frees hdr (a + t.span hdr) ts
      else frees hdr (a + t.span hdr) ts := by
  rw [cut]
  split
  next large =>
    have first : a + Tile.span hdr ⟨true, req, 0⟩ = a + hdr + req := by
      simp only [Tile.span]
      omega
    have behind : a + hdr + req + Tile.span hdr ⟨false, t.size - (req + hdr), t.lost⟩ =
        a + t.span hdr := by
      simp only [Tile.span]
      omega
    show frees hdr a (⟨true, req, 0⟩ :: ⟨false, t.size - (req + hdr), t.lost⟩ :: ts) = _
    rw [frees, if_pos rfl, first, frees_free rfl, behind]
  next =>
    have whole : a + Tile.span hdr ⟨true, req, t.size - req + t.lost⟩ = a + t.span hdr := by
      simp only [Tile.span]
      omega
    show frees hdr a (⟨true, req, t.size - req + t.lost⟩ :: ts) = _
    rw [frees, if_pos rfl, whole]

/-- The other free blocks stay, and what is left of this one. -/
theorem take_frees (positive : 0 < hdr) (taken : take hdr unit req a ts = some (b, ts'))
    (mem : (f, k) ∈ frees hdr a ts) :
    (f ≠ b ∧ (f, k) ∈ frees hdr a ts') ∨ (f = b ∧ req ≤ k ∧
      (k - req ≥ hdr + unit → (b + hdr + req, k - (req + hdr)) ∈ frees hdr a ts')) := by
  induction ts generalizing a ts' with
  | nil => cases taken
  | cons t ts ih =>
      have later {g n : Nat} (behind : (g, n) ∈ frees hdr (a + t.span hdr) ts) : a < g := by
        have := frees_ge behind
        simp only [Tile.span] at this
        omega
      rw [take] at taken
      split at taken
      next found =>
        cases taken
        rw [frees_cut found.2]
        rw [frees_free found.1] at mem
        rcases List.mem_cons.mp mem with here | behind
        · cases here
          refine .inr ⟨rfl, found.2, fun large => ?_⟩
          rw [if_pos large]
          exact List.mem_cons_self
        · refine .inl ⟨Nat.ne_of_gt (later behind), ?_⟩
          split
          · exact List.mem_cons_of_mem _ behind
          · exact behind
      next =>
        obtain ⟨⟨b', rest⟩, taken', e⟩ := Option.map_eq_some_iff.mp taken
        cases e
        obtain ⟨n, chosen, -⟩ := take_free taken'
        have far : a < b' := later chosen
        rw [frees] at mem
        split at mem
        next =>
          exact (ih taken' mem).imp (fun h => ⟨h.1, mem_frees_behind h.2⟩)
            fun h => ⟨h.1, h.2.1, fun large => mem_frees_behind (h.2.2 large)⟩
        next unused =>
          rcases List.mem_cons.mp mem with here | behind
          · obtain ⟨rfl, rfl⟩ := Prod.mk.inj here
            refine .inl ⟨Nat.ne_of_lt far, ?_⟩
            rw [frees, if_neg unused]
            exact List.mem_cons_self
          · exact (ih taken' behind).imp (fun h => ⟨h.1, mem_frees_behind h.2⟩)
              fun h => ⟨h.1, h.2.1, fun large => mem_frees_behind (h.2.2 large)⟩

/-! ## Headers -/

theorem mem_headers : b ∈ headers hdr a ts ↔ ∃ n, (b + hdr, n) ∈ areas hdr a ts := by
  induction ts generalizing a with
  | nil => simp [headers, areas]
  | cons t ts ih =>
      simp only [headers, areas, List.mem_cons, ih, Prod.mk.injEq, Nat.add_right_cancel_iff]
      constructor
      · rintro (rfl | ⟨n, mem⟩)
        · exact ⟨t.size, .inl ⟨rfl, rfl⟩⟩
        · exact ⟨n, .inr mem⟩
      · rintro ⟨n, ⟨rfl, -⟩ | mem⟩
        · exact .inl rfl
        · exact .inr ⟨n, mem⟩

/-- A header in a free block is that of the block. -/
theorem Within.head {stop : Nat} (positive : 0 < hdr) (fill : Tiles hdr unit a ts stop)
    (h : Within hdr a ts b n) (header : b ∈ headers hdr a ts) : ∃ k, (b, k) ∈ frees hdr a ts := by
  obtain ⟨g, k, free, low, high⟩ := h
  obtain ⟨m, area⟩ := mem_headers.mp header
  by_cases same : g = b
  · exact ⟨k, same ▸ free⟩
  · have apart := fill.behind.apart (frees_subset free) area
      fun e => same (Nat.add_right_cancel e)
    omega

theorem headers_join : ∀ x ∈ headers hdr a (join hdr ts), x ∈ headers hdr a ts := by
  intro x mem
  rcases ts with _ | ⟨t, _ | ⟨u, ts⟩⟩
  · exact mem
  · exact mem
  · rw [join] at mem
    split at mem
    next both =>
      have e : a + Tile.span hdr ⟨false, t.size + hdr + u.size, u.lost⟩ =
          a + t.span hdr + u.span hdr := by
        simp only [Tile.span, both.1.2]
        omega
      rw [headers, e] at mem
      rw [headers, headers]
      rcases List.mem_cons.mp mem with here | behind
      · exact List.mem_cons.mpr (.inl here)
      · exact List.mem_cons_of_mem _ (List.mem_cons_of_mem _ behind)
    next => exact mem

/-- A block that is freed leaves no header. -/
theorem headers_release : ∀ x ∈ headers hdr a (release hdr b a ts), x ∈ headers hdr a ts := by
  induction ts generalizing a with
  | nil => exact fun _ mem => mem
  | cons t ts ih =>
      intro x mem
      rw [release] at mem
      split at mem
      · have old : x ∈ headers hdr a ({ t with used := false } :: ts) := headers_join x mem
        exact old
      · rcases List.mem_cons.mp (headers_join x mem) with here | behind
        · exact List.mem_cons.mpr (.inl here)
        · exact List.mem_cons_of_mem _ (ih x behind)

/-- A request that is served leaves a header behind its block, or none. -/
theorem headers_take (taken : take hdr unit req a ts = some (b, ts')) :
    ∀ x ∈ headers hdr a ts', x ∈ headers hdr a ts ∨ x = b + hdr + req := by
  induction ts generalizing a ts' with
  | nil => cases taken
  | cons t ts ih =>
      intro x mem
      rw [take] at taken
      split at taken
      next found =>
        cases taken
        have behind : headers hdr b (cut hdr unit req t ++ ts) =
            (if t.size - req ≥ hdr + unit then [b, b + hdr + req] else [b]) ++
              headers hdr (b + t.span hdr) ts := by
          rw [cut]
          split
          next large =>
            have first : b + Tile.span hdr ⟨true, req, 0⟩ = b + hdr + req := by
              simp only [Tile.span]
              omega
            have second : b + hdr + req + Tile.span hdr ⟨false, t.size - (req + hdr), t.lost⟩ =
                b + t.span hdr := by
              simp only [Tile.span]
              omega
            simp only [List.cons_append, List.nil_append, headers, first, second]
          next =>
            have whole : b + Tile.span hdr ⟨true, req, t.size - req + t.lost⟩ = b + t.span hdr := by
              have := found.2
              simp only [Tile.span]
              omega
            simp only [List.cons_append, List.nil_append, headers, whole]
        rw [behind] at mem
        rw [headers]
        rcases List.mem_append.mp mem with new | old
        · split at new
          · simp only [List.mem_cons, List.not_mem_nil, or_false] at new
            exact new.imp (fun here => List.mem_cons.mpr (.inl here)) id
          · exact .inl (List.mem_cons.mpr (.inl (List.mem_singleton.mp new)))
        · exact .inl (List.mem_cons_of_mem _ old)
      next =>
        obtain ⟨r, taken', e⟩ := Option.map_eq_some_iff.mp taken
        cases e
        rcases List.mem_cons.mp mem with here | behind
        · exact .inl (List.mem_cons.mpr (.inl here))
        · exact (ih taken' x behind).imp (List.mem_cons_of_mem _) id

end Rtai.Lib
