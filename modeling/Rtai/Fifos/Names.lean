import Rtai.Fifos.Table
import Rtai.Fifos.ByteQueue
import Rtai.Lib.Run

/-!
# The names of the fifos

`rtf_create_named` looks for the name and for a fifo that is not open in one pass, and stops
at whichever it finds first.  `names_kept` says, for every run of the calls that open, name
and close fifos, what follows if no fifo that is not open comes before the one that has the
name.
-/

namespace Rtai.Fifos

open Function Rtai.Lib

variable {P : Type}

namespace Table

/-- A call of `rtai_fifos.h`, with what the allocation it makes returns. -/
inductive Call where
  | createNamed (name : List UInt8) (alloc : Option (Int → UInt8))
  | create (minor : Nat) (size : Int) (alloc : Option (Int → UInt8))
  | destroy (minor : Nat)
  | getByName (name : List UInt8)

def step : Call → Table P → Option (Table P)
  | .createNamed name alloc, t => (t.rtfCreateNamed name alloc).map Prod.fst
  | .create minor size alloc, t => (t.rtfCreate minor size alloc).map Prod.fst
  | .destroy minor, t => some (t.rtfDestroy minor).1
  | .getByName _, t => some t

def opncnt (t : Table P) (minor : Nat) : Int := (t.state.fifo minor).opncnt

/-- An open fifo has the name. -/
def Named (t : Table P) (name : List UInt8) (minor : Nat) : Prop :=
  minor < MAX_FIFOS ∧ t.opncnt minor ≠ 0 ∧ t.name minor = name

/-- A name of 1 to `RTF_NAMELEN` characters. -/
def Proper (name : List UInt8) : Prop := 0 < name.length ∧ name.length ≤ RTF_NAMELEN

instance (name : List UInt8) : Decidable (Proper name) := inferInstanceAs (Decidable (_ ∧ _))

/-- Names are proper, and a fifo that has the name comes before those that are not open. -/
def Guard (t : Table P) : Call → Prop
  | .createNamed name _ =>
      Proper name ∧ ∀ minor, t.Named name minor → ∀ other < minor, t.opncnt other ≠ 0
  | .getByName name => Proper name
  | .create .. | .destroy _ => True

/-- No two open fifos have the same name. -/
def Distinct (t : Table P) : Prop :=
  ∀ name minor other, Proper name → t.Named name minor → t.Named name other → minor = other

/-- A fifo without a user has no name, and names are not too long. -/
structure Ok (t : Table P) : Prop where
  opncnt : ∀ minor, 0 ≤ t.opncnt minor
  closed : ∀ minor, t.opncnt minor = 0 → t.name minor = []
  short : ∀ minor, (t.name minor).length ≤ RTF_NAMELEN
  empty : ∀ minor, (t.state.fifo minor).mbx.avbs = 0
  distinct : ∀ minor < MAX_FIFOS, ∀ other < MAX_FIFOS, t.name minor ≠ [] →
    t.name minor = t.name other → minor = other

variable {t t' : Table P} {name : List UInt8} {minor k other : Nat} {alloc : Option (Int → UInt8)}

/-! ## The loops -/

section

variable (ok : t.Ok) (proper : Proper name)
include ok proper

theorem sameName_iff : sameName name (t.name minor) RTF_NAMELEN ↔ t.name minor = name := by
  rw [sameName, List.take_of_length_le proper.2, List.take_of_length_le (ok.short minor)]
  exact eq_comm

/-- A fifo with a proper name is open. -/
theorem Ok.is_named (valid : minor < MAX_FIFOS) (same : t.name minor = name) :
    t.Named name minor := by
  refine ⟨valid, fun closed => ?_, same⟩
  have some := proper.1
  rw [← same, ok.closed minor closed] at some
  exact absurd some (Nat.lt_irrefl 0)

/-- A fifo that is not open is given the name. -/
def named (minor : Nat) (name : List UInt8) (bufadr : Int → UInt8) (t : Table P) : Table P :=
  let t := t.opened minor DEFAULT_SIZE bufadr
  { t with name := update t.name minor (name.take (RTF_NAMELEN + 1)) }

theorem createNamedLoop_cons (le : k + 1 ≤ MAX_FIFOS) (here : minor = MAX_FIFOS - (k + 1)) :
    t.createNamedLoop name alloc (k + 1) =
      if t.name minor = name then some (t, -EBUSY)
      else if t.opncnt minor = 0 then
        some (alloc.elim (t, -ENOMEM) fun bufadr => (t.named minor name bufadr, minor))
      else t.createNamedLoop name alloc k := by
  subst here
  rw [createNamedLoop]
  simp only [sameName_iff ok proper]
  by_cases same : t.name (MAX_FIFOS - (k + 1)) = name
  · rw [if_pos same, if_pos same]
  · rw [if_neg same, if_neg same]
    by_cases unopened : t.opncnt (MAX_FIFOS - (k + 1)) = 0
    · have valid : ¬MAX_FIFOS - (k + 1) ≥ MAX_FIFOS := by omega
      have unopened' : (t.state.fifo (MAX_FIFOS - (k + 1))).opncnt = 0 := unopened
      rw [if_pos ⟨unopened, ok.closed _ unopened⟩, if_pos unopened, rtfCreate, if_neg valid,
        if_pos unopened']
      cases alloc with
      | none => rfl
      | some bufadr => rfl
    · rw [if_neg fun h => unopened h.1, if_neg unopened]

variable (alloc) in
/-- `rtf_create_named` finds the name, a fifo that is not open, or neither. -/
theorem createNamedLoop_spec (le : k ≤ MAX_FIFOS) :
    (t.createNamedLoop name alloc k = some (t, -EBUSY) ∧
      ∀ minor, MAX_FIFOS - k ≤ minor → minor < MAX_FIFOS → t.opncnt minor = 0 →
        ∃ other, MAX_FIFOS - k ≤ other ∧ other < minor ∧ t.name other = name) ∨
    ∃ minor, MAX_FIFOS - k ≤ minor ∧ minor < MAX_FIFOS ∧ t.opncnt minor = 0 ∧
      (∀ other, MAX_FIFOS - k ≤ other → other < minor → t.name other ≠ name) ∧
      t.createNamedLoop name alloc k =
        some (alloc.elim (t, -ENOMEM) fun bufadr => (t.named minor name bufadr, minor)) := by
  induction k with
  | zero =>
      refine .inl ⟨rfl, fun minor low high => ?_⟩
      exact absurd high (Nat.not_lt_of_ge low)
  | succ k ih =>
      have next : MAX_FIFOS - k = MAX_FIFOS - (k + 1) + 1 := by omega
      have inside : MAX_FIFOS - (k + 1) < MAX_FIFOS := by omega
      rw [createNamedLoop_cons ok proper le rfl]
      rw [next] at ih
      generalize MAX_FIFOS - (k + 1) = first at *
      by_cases same : t.name first = name
      · rw [if_pos same]
        refine .inl ⟨rfl, fun minor low _ unopened => ⟨first, Nat.le_refl _, ?_, same⟩⟩
        refine Nat.lt_of_le_of_ne low ?_
        rintro rfl
        have none := ok.closed _ unopened
        rw [same] at none
        have some := proper.1
        rw [none] at some
        exact absurd some (Nat.lt_irrefl 0)
      · rw [if_neg same]
        by_cases unopened : t.opncnt first = 0
        · rw [if_pos unopened]
          refine .inr ⟨first, Nat.le_refl _, inside, unopened, fun other low high => ?_, rfl⟩
          exact absurd high (Nat.not_lt_of_ge low)
        · rw [if_neg unopened]
          rcases ih (Nat.le_of_succ_le le) with ⟨does, busy⟩ | ⟨minor, low, high, closed, others, does⟩
          · refine .inl ⟨does, fun minor low high closed => ?_⟩
            have other : minor ≠ first := by
              rintro rfl
              exact unopened closed
            obtain ⟨i, low', high', named⟩ := busy minor (by omega) high closed
            exact ⟨i, by omega, high', named⟩
          · refine .inr ⟨minor, by omega, high, closed, fun other low' high' => ?_, does⟩
            rcases Nat.eq_or_lt_of_le low' with rfl | behind
            · exact same
            · exact others other behind high'

variable (alloc) in
theorem rtfCreateNamed_spec :
    (t.rtfCreateNamed name alloc = some (t, -EBUSY) ∧
      ∀ minor < MAX_FIFOS, t.opncnt minor = 0 → ∃ other < minor, t.name other = name) ∨
    ∃ minor < MAX_FIFOS, t.opncnt minor = 0 ∧ (∀ other < minor, t.name other ≠ name) ∧
      t.rtfCreateNamed name alloc =
        some (alloc.elim (t, -ENOMEM) fun bufadr => (t.named minor name bufadr, minor)) := by
  have short : ¬name.length > RTF_NAMELEN := Nat.not_lt_of_ge proper.2
  rw [rtfCreateNamed, if_neg short]
  rcases createNamedLoop_spec alloc ok proper (Nat.le_refl MAX_FIFOS) with
    ⟨does, busy⟩ | ⟨minor, -, high, closed, others, does⟩
  · refine .inl ⟨does, fun minor high closed => ?_⟩
    obtain ⟨other, -, before, named⟩ := busy minor (by omega) high closed
    exact ⟨other, before, named⟩
  · exact .inr ⟨minor, high, closed, fun other => others other (by omega), does⟩

theorem byNameLoop_spec (le : k ≤ MAX_FIFOS) :
    (t.byNameLoop name k = -ENODEV ∧ ∀ minor, MAX_FIFOS - k ≤ minor → ¬t.Named name minor) ∨
      ∃ minor, t.Named name minor ∧ t.byNameLoop name k = minor := by
  induction k with
  | zero =>
      refine .inl ⟨rfl, fun minor low named => ?_⟩
      exact absurd named.1 (Nat.not_lt_of_ge low)
  | succ k ih =>
      have inside : MAX_FIFOS - (k + 1) < MAX_FIFOS := by omega
      rw [byNameLoop]
      simp only [sameName_iff ok proper]
      split
      next found => exact .inr ⟨_, ⟨inside, found⟩, rfl⟩
      next other =>
        rcases ih (Nat.le_of_succ_le le) with ⟨does, none⟩ | found
        · refine .inl ⟨does, fun minor low named => ?_⟩
          rcases Nat.eq_or_lt_of_le low with rfl | behind
          · exact other named.2
          · exact none minor (by omega) named
        · exact .inr found

end

/-! ## What the calls leave alone -/

/-- Only the fifo `minor` has changed. -/
structure Changes (t t' : Table P) (minor : Nat) : Prop where
  fifo : ∀ other, other ≠ minor → t'.state.fifo other = t.state.fifo other
  name : ∀ other, other ≠ minor → t'.name other = t.name other

theorem Ok.change (ok : t.Ok) (changes : t.Changes t' minor) (opncnt : 0 ≤ t'.opncnt minor)
    (closed : t'.opncnt minor = 0 → t'.name minor = [])
    (short : (t'.name minor).length ≤ RTF_NAMELEN)
    (empty : (t'.state.fifo minor).mbx.avbs = 0)
    (new : t'.name minor ≠ [] → t'.name minor = t.name minor ∨
      ∀ other < MAX_FIFOS, t.name other ≠ t'.name minor) : t'.Ok := by
  have fifo (other : Nat) (h : other ≠ minor) : t'.opncnt other = t.opncnt other :=
    congrArg Fifo.opncnt (changes.fifo other h)
  have fresh (i j : Nat) (hi : i < MAX_FIFOS) (hj : j < MAX_FIFOS) (here : i = minor)
      (some : t'.name i ≠ []) (same : t'.name i = t'.name j) : i = j := by
    subst here
    by_contra other
    have there := changes.name j fun e => other e.symm
    rw [there] at same
    rcases new some with kept | unused
    · rw [kept] at some same
      exact other (ok.distinct i hi j hj some same)
    · exact unused j hj same.symm
  constructor
  · intro i
    by_cases here : i = minor
    · rw [here]
      exact opncnt
    · rw [fifo i here]
      exact ok.opncnt i
  · intro i
    by_cases here : i = minor
    · rw [here]
      exact closed
    · rw [fifo i here, changes.name i here]
      exact ok.closed i
  · intro i
    by_cases here : i = minor
    · rw [here]
      exact short
    · rw [changes.name i here]
      exact ok.short i
  · intro i
    by_cases here : i = minor
    · rw [here]
      exact empty
    · rw [changes.fifo i here]
      exact ok.empty i
  · intro i hi j hj some same
    by_cases here : i = minor
    · exact fresh i j hi hj here some same
    · by_cases there : j = minor
      · exact (fresh j i hj hi there (same ▸ some) same.symm).symm
      · rw [changes.name i here, changes.name j there] at same
        rw [changes.name i here] at some
        exact ok.distinct i hi j hj some same

theorem setFifo_other (s : State P) (f : Fifo P) (h : other ≠ minor) :
    (s.setFifo minor f).fifo other = s.fifo other :=
  update_of_ne h ..

theorem mbxDelete_other (s : State P) (h : other ≠ minor) :
    (s.mbxDelete minor).fifo other = s.fifo other := by
  have signal : (s.mbxSignal minor).fifo other = s.fifo other := by
    simp only [State.mbxSignal]
    split
    · exact setFifo_other s _ h
    · rfl
  exact (setFifo_other _ _ h).trans ((setFifo_other _ _ h).trans signal)

theorem opened_changes (size : Int) (bufadr : Int → UInt8) :
    t.Changes (t.opened minor size bufadr) minor where
  fifo := fun _ h => setFifo_other _ _ h
  name := fun _ h => update_of_ne h ..

theorem opened_opncnt (size : Int) (bufadr : Int → UInt8) :
    (t.opened minor size bufadr).opncnt minor = t.opncnt minor + 1 := by
  simp [opncnt, opened, State.created, State.setFifo]

theorem opened_avbs (size : Int) (bufadr : Int → UInt8) :
    ((t.opened minor size bufadr).state.fifo minor).mbx.avbs = 0 := by
  simp [opened, State.created, State.setFifo, FMbx.mbxInit]

/-- Nothing is copied from an empty fifo. -/
theorem resized_empty {m : FMbx P} (empty : m.avbs = 0) (size : Int) (bufadr : Int → UInt8) :
    ∃ m', m.resized size bufadr = some (m', []) ∧ m'.avbs = 0 := by
  have nothing : m.mbxGet 1000000000 = some (m, 1000000000, []) := by
    rw [FMbx.mbxGet, FMbx.getLoop, if_neg fun more => more.2 empty]
  let m₁ : FMbx P := { m with
    avbs := 0
    bufadr := blit bufadr 0 []
    size := if size > m.size then size else m.size
    fbyte := 0 }
  refine ⟨{ m₁ with frbs := m₁.size - m₁.avbs }, ?_, rfl⟩
  rw [FMbx.resized, nothing]
  rfl

theorem rtfResize_spec (ok : t.Ok) (minor : Nat) (size : Int) (alloc : Option (Int → UInt8)) :
    ∃ t' value copied, t.rtfResize minor size alloc = some (t', value, copied) ∧
      t.Changes t' minor ∧ t'.name minor = t.name minor ∧ t'.opncnt minor = t.opncnt minor ∧
      (t'.state.fifo minor).mbx.avbs = 0 := by
  have same : t.Changes t minor := ⟨fun _ _ => rfl, fun _ _ => rfl⟩
  by_cases valid : minor ≥ MAX_FIFOS
  · exact ⟨t, -ENODEV, [], if_pos valid, same, rfl, rfl, ok.empty minor⟩
  by_cases unopened : (t.state.fifo minor).opncnt = 0
  · refine ⟨t, -EINVAL, [], ?_, same, rfl, rfl, ok.empty minor⟩
    rw [rtfResize, if_neg valid, if_pos unopened]
  rw [rtfResize, if_neg valid, if_neg unopened]
  cases alloc with
  | none => exact ⟨t, -ENOMEM, [], rfl, same, rfl, rfl, ok.empty minor⟩
  | some bufadr =>
      obtain ⟨m', does, empty⟩ := resized_empty (ok.empty minor) size bufadr
      let t' : Table P := { t with
        state := t.state.setMbx minor m'
        mallocType := update t.mallocType minor (mallocTypeOf size)
        room := update t.room minor size }
      refine ⟨t', size, [], ?_, ⟨fun _ h => setFifo_other _ _ h, fun _ _ => rfl⟩, rfl, ?_, ?_⟩
      · show Option.bind (FMbx.resized _ _ _) _ = _
        rw [does]
        rfl
      · simp [t', opncnt, State.setMbx, State.setFifo]
      · simpa [t', State.setMbx, State.setFifo] using empty

/-! ## The calls -/

theorem Ok.createNamed (ok : t.Ok) (guard : t.Guard (.createNamed name alloc)) :
    ∃ t', t.step (.createNamed name alloc) = some t' ∧ t'.Ok := by
  obtain ⟨proper, before⟩ := guard
  rw [step]
  rcases rtfCreateNamed_spec alloc ok proper with
    ⟨does, -⟩ | ⟨minor, valid, unopened, others, does⟩
  · rw [does]
    exact ⟨t, rfl, ok⟩
  · rw [does]
    cases alloc with
    | none => exact ⟨t, rfl, ok⟩
    | some bufadr =>
        have count : (t.named minor name bufadr).opncnt minor = t.opncnt minor + 1 :=
          opened_opncnt _ _
        have whole : name.take (RTF_NAMELEN + 1) = name :=
          List.take_of_length_le (Nat.le_succ_of_le proper.2)
        have gets : (t.named minor name bufadr).name minor = name := by
          simp [named, whole]
        have changes : t.Changes (t.named minor name bufadr) minor := by
          refine ⟨fun _ h => setFifo_other _ _ h, fun other h => ?_⟩
          exact (update_of_ne h ..).trans (update_of_ne h ..)
        refine ⟨t.named minor name bufadr, rfl, ok.change changes ?_ ?_ ?_ ?_ fun _ => .inr ?_⟩
        · rw [count, unopened]
          decide
        · intro none
          rw [count, unopened] at none
          cases none
        · rw [gets]
          exact proper.2
        · exact opened_avbs _ _
        · intro other high same
          rw [gets] at same
          have there := ok.is_named proper high same
          rcases Nat.lt_trichotomy other minor with less | rfl | more
          · exact others other less same
          · exact there.2.1 unopened
          · exact before other there minor more unopened

theorem Ok.create (ok : t.Ok) (minor : Nat) (size : Int) (alloc : Option (Int → UInt8)) :
    ∃ t', t.step (.create minor size alloc) = some t' ∧ t'.Ok := by
  rw [step, rtfCreate]
  by_cases valid : minor ≥ MAX_FIFOS
  · rw [if_pos valid]
    exact ⟨t, rfl, ok⟩
  rw [if_neg valid]
  by_cases unopened : (t.state.fifo minor).opncnt = 0
  · rw [if_pos unopened]
    cases alloc with
    | none => exact ⟨t, rfl, ok⟩
    | some bufadr =>
        have count : (t.opened minor size bufadr).opncnt minor = t.opncnt minor + 1 :=
          opened_opncnt size bufadr
        have unopened : t.opncnt minor = 0 := unopened
        have nameless : (t.opened minor size bufadr).name minor = [] := update_self ..
        refine ⟨t.opened minor size bufadr, rfl, ok.change (opened_changes _ _) ?_ ?_ ?_ ?_ ?_⟩
        · rw [count, unopened]
          decide
        · exact fun _ => nameless
        · rw [nameless]
          decide
        · exact opened_avbs _ _
        · exact fun some => absurd nameless some
  · rw [if_neg unopened]
    have step_up {t' : Table P} (changes : t.Changes t' minor)
        (name : t'.name minor = t.name minor) (count : t'.opncnt minor = t.opncnt minor)
        (empty : (t'.state.fifo minor).mbx.avbs = 0) :
        Ok { t' with state := t'.state.setFifo minor { t'.state.fifo minor with
          opncnt := (t'.state.fifo minor).opncnt + 1 } } := by
      have low := ok.opncnt minor
      have more : (t'.state.fifo minor).opncnt + 1 ≠ 0 := by
        have count : (t'.state.fifo minor).opncnt = t.opncnt minor := count
        omega
      have high : 0 ≤ (t'.state.fifo minor).opncnt + 1 := by
        have count : (t'.state.fifo minor).opncnt = t.opncnt minor := count
        omega
      refine ok.change ⟨fun other h => ?_, changes.name⟩ ?_ ?_ ?_ ?_ ?_
      · exact (setFifo_other _ _ h).trans (changes.fifo other h)
      · simpa [Table.opncnt, State.setFifo] using high
      · intro none
        refine absurd ?_ more
        simpa [Table.opncnt, State.setFifo] using none
      · exact (congrArg List.length name).trans_le (ok.short minor)
      · simpa [State.setFifo] using empty
      · exact fun _ => .inl name
    by_cases larger : size > (t.state.fifo minor).mbx.size
    · obtain ⟨t', value, copied, does, changes, name, count, empty⟩ :=
        rtfResize_spec ok minor size alloc
      refine ⟨_, ?_, step_up changes name count empty⟩
      rw [if_pos larger, does]
      rfl
    · refine ⟨_, ?_, step_up ⟨fun _ _ => rfl, fun _ _ => rfl⟩ rfl rfl (ok.empty minor)⟩
      rw [if_neg larger]
      rfl

theorem Ok.destroy [DecidableEq P] (ok : t.Ok) (minor : Nat) : (t.rtfDestroy minor).1.Ok := by
  rw [rtfDestroy]
  by_cases valid : minor ≥ MAX_FIFOS
  · rw [if_pos valid]
    exact ok
  rw [if_neg valid]
  by_cases unopened : (t.state.fifo minor).opncnt = 0
  · rw [if_pos unopened]
    exact ok
  rw [if_neg unopened]
  have low : 0 ≤ (t.state.fifo minor).opncnt := ok.opncnt minor
  let f : Fifo P := { t.state.fifo minor with opncnt := (t.state.fifo minor).opncnt - 1 }
  let t₁ : Table P := { t with state := t.state.setFifo minor f }
  have here : t₁.state.fifo minor = f := update_self ..
  show Ok (if f.opncnt = 0 then t₁.closed minor else t₁)
  have high : 0 ≤ f.opncnt := by
    show 0 ≤ (t.state.fifo minor).opncnt - 1
    omega
  split
  next last =>
    have gone : (t₁.closed minor).name minor = [] := update_self ..
    obtain ⟨w, v, v', deleted⟩ := State.mbxDelete_fifo t₁.state minor
    rw [here] at deleted
    refine ok.change ⟨fun other h => ?_, fun other h => update_of_ne h ..⟩ ?_ ?_ ?_ ?_ ?_
    · exact (setFifo_other _ _ h).trans ((mbxDelete_other _ h).trans (setFifo_other _ _ h))
    · simpa [Table.closed, Table.opncnt, State.setFifo, deleted] using high
    · exact fun _ => gone
    · rw [gone]
      decide
    · simpa [Table.closed, State.setFifo, deleted] using ok.empty minor
    · exact fun some => absurd gone some
  next more =>
    refine ok.change ⟨fun other h => setFifo_other _ _ h, fun _ _ => rfl⟩ ?_ ?_ ?_ ?_ ?_
    · show 0 ≤ (t₁.state.fifo minor).opncnt
      rw [here]
      exact high
    · intro none
      have none : (t₁.state.fifo minor).opncnt = 0 := none
      rw [here] at none
      exact absurd none more
    · exact ok.short minor
    · rw [here]
      exact ok.empty minor
    · exact fun _ => .inl rfl

theorem Ok.step [DecidableEq P] (ok : t.Ok) {c : Call} (guard : t.Guard c) :
    ∃ t', t.step c = some t' ∧ t'.Ok := by
  cases c with
  | createNamed name alloc => exact ok.createNamed guard
  | create minor size alloc => exact ok.create minor size alloc
  | destroy minor => exact ⟨_, rfl, ok.destroy minor⟩
  | getByName name => exact ⟨t, rfl, ok⟩

theorem empty_ok : ({} : Table P).Ok where
  opncnt := fun _ => Int.le_refl 0
  closed := fun _ _ => rfl
  short := fun _ => Nat.zero_le _
  empty := fun _ => rfl
  distinct := fun _ _ _ _ some => absurd rfl some

/-! ## Every run -/

/-- What the calls are about to do with a name. -/
structure Found (t : Table P) (name : List UInt8) : Prop where
  /-- `rtf_create_named` of a name that is there. -/
  busy : ∀ minor, t.Named name minor → ∀ alloc, ∃ t' value,
    t.rtfCreateNamed name alloc = some (t', value) ∧
      (value = -EBUSY ↔ ∀ other < minor, t.opncnt other ≠ 0)
  there : ∀ minor, t.Named name minor → t.rtfGetfifobyname name = minor
  absent : (∀ minor, ¬t.Named name minor) → t.rtfGetfifobyname name = -ENODEV

theorem Ok.named_unique (ok : t.Ok) : t.Distinct := by
  intro name minor other proper here there
  have some : t.name minor ≠ [] := by
    intro none
    have some := proper.1
    rw [← here.2.2, none] at some
    exact absurd some (Nat.lt_irrefl 0)
  exact ok.distinct minor here.1 other there.1 some (here.2.2.trans there.2.2.symm)

theorem Ok.found (ok : t.Ok) (proper : Proper name) : t.Found name := by
  have short : ¬name.length > RTF_NAMELEN := Nat.not_lt_of_ge proper.2
  have search : t.rtfGetfifobyname name = t.byNameLoop name MAX_FIFOS := if_neg short
  refine ⟨fun minor here alloc => ?_, fun minor here => ?_, fun none => ?_⟩
  · rcases rtfCreateNamed_spec alloc ok proper with
      ⟨does, busy⟩ | ⟨i, valid, closed, others, does⟩
    · refine ⟨t, -EBUSY, does, iff_of_true rfl fun other before closed => ?_⟩
      obtain ⟨first, less, same⟩ := busy other (Nat.lt_trans before here.1) closed
      have valid : first < MAX_FIFOS := Nat.lt_trans less (Nat.lt_trans before here.1)
      have there := ok.is_named proper valid same
      have e := ok.named_unique name first minor proper there here
      omega
    · have before : i < minor := by
        rcases Nat.lt_trichotomy minor i with less | rfl | more
        · exact absurd here.2.2 (others minor less)
        · exact absurd closed here.2.1
        · exact more
      have not_all : ¬∀ other < minor, t.opncnt other ≠ 0 := fun all => all i before closed
      cases alloc with
      | none => exact ⟨t, -ENOMEM, does, iff_of_false (by decide) not_all⟩
      | some bufadr =>
          refine ⟨t.named i name bufadr, i, does, iff_of_false ?_ not_all⟩
          have negative : (-EBUSY : Int) < 0 := by decide
          omega
  · rw [search]
    rcases byNameLoop_spec ok proper (Nat.le_refl MAX_FIFOS) with ⟨-, none⟩ | ⟨other, there, does⟩
    · exact absurd here (none minor (by omega))
    · rw [does, ok.named_unique name minor other proper here there]
  · rw [search]
    rcases byNameLoop_spec ok proper (Nat.le_refl MAX_FIFOS) with ⟨does, -⟩ | ⟨other, there, -⟩
    · exact does
    · exact absurd there (none other)

/-- In every run in which a fifo that has the name comes before those that are not open
whenever the name is to be created: no two open fifos have the same name, every call returns,
`rtf_getfifobyname` finds the fifo, and `rtf_create_named` of a name that is there fails with
`-EBUSY` exactly if no fifo that is not open comes before it. -/
theorem names_kept [DecidableEq P] {tr : List (Record (Table P) Call)} (run : Run step Guard {} tr t) :
    t.Distinct ∧ (∀ c, t.Guard c → (t.step c).isSome) ∧
      ∀ name, Proper name → t.Found name := by
  have ok : t.Ok := by
    refine run.invariant empty_ok ?_
    intro t t' c ok guard stepped
    obtain ⟨t₁, does, ok'⟩ := ok.step guard
    cases does.symm.trans stepped
    exact ok'
  refine ⟨ok.named_unique, fun c guard => ?_, fun name proper => ok.found proper⟩
  obtain ⟨t', does, -⟩ := ok.step guard
  rw [does]
  rfl

instance (t : Table P) (name : List UInt8) (minor : Nat) : Decidable (t.Named name minor) :=
  inferInstanceAs (Decidable (_ ∧ _))

instance (t : Table P) : ∀ c, Decidable (t.Guard c)
  | .createNamed name _ =>
      decidable_of_iff (Proper name ∧ ∀ minor < MAX_FIFOS,
          t.Named name minor → ∀ other < minor, t.opncnt other ≠ 0)
        ⟨fun h => ⟨h.1, fun minor named => h.2 minor named.1 named⟩,
          fun h => ⟨h.1, fun minor _ => h.2 minor⟩⟩
  | .getByName name => inferInstanceAs (Decidable (Proper name))
  | .create .. | .destroy _ => .isTrue trivial

/-- `A` and `B` are created, `A` is closed and created again. -/
theorem names_kept_found : ∃ tr t, Run step Guard ({} : Table Nat) tr t ∧ t.Distinct ∧
    t.rtfGetfifobyname [66] = 1 := by
  obtain ⟨tr, t, run, test⟩ := Run.of_execute step Guard ({} : Table Nat)
    [.createNamed [65] (some fun _ => 0), .createNamed [66] (some fun _ => 0), .destroy 0,
      .createNamed [65] (some fun _ => 0)] (fun t => t.Named [66] 1) (by decide +kernel)
  obtain ⟨distinct, -, found⟩ := names_kept run
  exact ⟨tr, t, run, distinct, (found [66] (by decide)).there 1 (of_decide_eq_true test)⟩

/-- `A` and `B` are created, `A` is closed, and `B` is created once more. -/
theorem created_twice : ∃ tr t, Run step (fun _ _ => True) ({} : Table Nat) tr t ∧
    ¬t.Distinct := by
  obtain ⟨tr, t, run, test⟩ := Run.of_execute step (fun _ _ => True) ({} : Table Nat)
    [.createNamed [65] (some fun _ => 0), .createNamed [66] (some fun _ => 0), .destroy 0,
      .createNamed [66] (some fun _ => 0)] (fun t => t.Named [66] 0 ∧ t.Named [66] 1)
    (by decide +kernel)
  obtain ⟨first, second⟩ := of_decide_eq_true test
  refine ⟨tr, t, run, fun distinct => ?_⟩
  exact absurd (distinct [66] 0 1 (by decide) first second) (by decide)

end Table

end Rtai.Fifos
