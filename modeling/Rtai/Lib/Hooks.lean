import Rtai.Lib.Listed
import Rtai.Lib.Splice

/-!
# Lists on hooks

A hook has the first and the last node of a doubly linked list that ends in `NULL` both ways,
and every node has the hook whose list it is on.  Seen through `Hooked.links` each hook closes
its list to a ring: it is where the links of the first and of the last node point to, and a
node without a hook points to itself.

So the operations are those of rings.  `OnHooks.drop` takes a node off its list, `OnHooks.put`
puts one between two others or at an end, and `OnHooks.flush` moves a whole list.
`OnHooks.threaded` says what the pointers of a list are, and `OnHooks.of_threaded` that
pointers like these are a list on each hook.
-/

namespace Rtai.Lib

open Function

variable {η α : Type} {g : η}

/-- The pointers of hooks and nodes. -/
structure Hooked (η α : Type) where
  head : η → Option α
  tail : η → Option α
  nxt : α → Option α
  prv : α → Option α
  hook : α → Option η

namespace Hooked

def empty : Hooked η α :=
  { head := fun _ => none
    tail := fun _ => none
    nxt := fun _ => none
    prv := fun _ => none
    hook := fun _ => none }

/-- What a pointer on the list of `h` leads to. -/
def node (h : η) : Option α → η ⊕ α
  | none => .inl h
  | some a => .inr a

/-- The pointer `p` of a hook or a node, as a link. -/
def link (first : η → Option α) (p : α → Option α) (hook : α → Option η) : η ⊕ α → η ⊕ α
  | .inl h => node h (first h)
  | .inr a => match hook a with
      | none => .inr a
      | some h => node h (p a)

def links (s : Hooked η α) : Links (η ⊕ α) where
  next := link s.head s.nxt s.hook
  prev := link s.tail s.prv s.hook

theorem node_injective {h : η} : Injective (node h : Option α → η ⊕ α)
  | none, none, _ => rfl
  | some _, some _, e => congrArg some (Sum.inr.inj e)

variable [DecidableEq η] [DecidableEq α]

/-- `*(p ? &p->nxt : &h->head) = v`. -/
def setNxt (h : η) (p v : Option α) (s : Hooked η α) : Hooked η α :=
  match p with
  | none => { s with head := update s.head h v }
  | some a => { s with nxt := update s.nxt a v }

/-- `*(p ? &p->prv : &h->tail) = v`. -/
def setPrv (h : η) (p v : Option α) (s : Hooked η α) : Hooked η α :=
  match p with
  | none => { s with tail := update s.tail h v }
  | some a => { s with prv := update s.prv a v }

/-- The node leaves its list. -/
def drop (a : α) (h : η) (s : Hooked η α) : Hooked η α :=
  let s := (s.setPrv h (s.nxt a) (s.prv a)).setNxt h (s.prv a) (s.nxt a)
  { s with hook := update s.hook a none }

/-- The node comes between `p` and `q`. -/
def put (a : α) (h : η) (p q : Option α) (s : Hooked η α) : Hooked η α :=
  let s : Hooked η α := { s with
    hook := update s.hook a (some h)
    nxt := update s.nxt a q
    prv := update s.prv a p }
  (s.setPrv h q (some a)).setNxt h p (some a)

/-- The node before `w` on the list of `h`, or its last. -/
def before (h : η) (w : Option α) (s : Hooked η α) : Option α :=
  match w with
  | none => s.tail h
  | some b => s.prv b

/-- All nodes of `g` come before `w` on `h`, or to the end. -/
def flush (g h : η) (w : Option α) (s : Hooked η α) : Hooked η α :=
  let first := s.head g
  let last := s.tail g
  let p := s.before h w
  let s := { s with hook := fun a => if s.hook a = some g then some h else s.hook a }
  let s := (((s.setNxt h last w).setPrv h first p).setPrv h w last).setNxt h p first
  (s.setNxt g none none).setPrv g none none

variable {s : Hooked η α} {a b : α} {h : η} {p q v : Option α} {first : η → Option α}
  {f : α → Option α} {hook : α → Option η}

theorem link_ends :
    link (update first h v) f hook = update (link first f hook) (.inl h) (node h v) := by
  funext x
  rcases x with g | b
  · by_cases e : g = h
    · subst e
      simp [link]
    · rw [update_of_ne fun e' => e (Sum.inl.inj e')]
      simp [link, update_of_ne e]
  · rw [update_of_ne Sum.inr_ne_inl]
    rfl

theorem link_node (here : hook a = some h) :
    link first (update f a v) hook = update (link first f hook) (.inr a) (node h v) := by
  funext x
  rcases x with g | b
  · rw [update_of_ne Sum.inl_ne_inr]
    rfl
  · by_cases e : b = a
    · subst e
      simp [link, here]
    · rw [update_of_ne fun e' => e (Sum.inr.inj e')]
      simp [link, update_of_ne e]

/-- A node is hooked with its pointer set. -/
theorem link_hang :
    link first (update f a v) (update hook a (some h)) =
      update (link first f hook) (.inr a) (node h v) := by
  funext x
  rcases x with g | b
  · rw [update_of_ne Sum.inl_ne_inr]
    rfl
  · by_cases e : b = a
    · subst e
      simp [link]
    · rw [update_of_ne fun e' => e (Sum.inr.inj e')]
      simp [link, update_of_ne e]

theorem link_free :
    link first f (update hook a none) = update (link first f hook) (.inr a) (.inr a) := by
  funext x
  rcases x with g | b
  · rw [update_of_ne Sum.inl_ne_inr]
    rfl
  · by_cases e : b = a
    · subst e
      simp [link]
    · rw [update_of_ne fun e' => e (Sum.inr.inj e')]
      simp [link, update_of_ne e]

@[simp] theorem setNxt_hook : (s.setNxt h p v).hook = s.hook := by cases p <;> rfl

@[simp] theorem setPrv_hook : (s.setPrv h p v).hook = s.hook := by cases p <;> rfl

@[simp] theorem drop_hook : (s.drop a h).hook = update s.hook a none := by simp [drop]

@[simp] theorem put_hook : (s.put a h p q).hook = update s.hook a (some h) := by simp [put]

@[simp] theorem setPrv_nxt : (s.setPrv h p v).nxt = s.nxt := by cases p <;> rfl

theorem links_setNxt (here : ∀ b, p = some b → s.hook b = some h) : (s.setNxt h p v).links =
    { s.links with next := update s.links.next (node h p) (node h v) } := by
  cases p with
  | none => exact congrArg₂ Links.mk link_ends rfl
  | some b => exact congrArg₂ Links.mk (link_node (here b rfl)) rfl

theorem links_setPrv (here : ∀ b, p = some b → s.hook b = some h) : (s.setPrv h p v).links =
    { s.links with prev := update s.links.prev (node h p) (node h v) } := by
  cases p with
  | none => exact congrArg₂ Links.mk rfl link_ends
  | some b => exact congrArg₂ Links.mk rfl (link_node (here b rfl))

theorem links_free :
    Hooked.links { s with hook := update s.hook a none } = s.links.reset (.inr a) :=
  congrArg₂ Links.mk link_free link_free

/-- The neighbours of a node are on its list. -/
theorem links_drop (here : s.hook a = some h) (next : ∀ b, s.nxt a = some b → s.hook b = some h)
    (prev : ∀ b, s.prv a = some b → s.hook b = some h) :
    (s.drop a h).links = (s.links.unlink (.inr a)).reset (.inr a) := by
  rw [drop, links_free, links_setNxt (by simpa using prev), links_setPrv next, Links.unlink_eq]
  simp [links, link, here]

omit [DecidableEq η] [DecidableEq α] in
theorem node_ne (free : s.hook a = none) (here : ∀ b, p = some b → s.hook b = some h) :
    node h p ≠ .inr a := by
  cases p with
  | none => exact Sum.inl_ne_inr
  | some b =>
      intro e
      rw [Sum.inr.inj e] at here
      cases free.symm.trans (here a rfl)

/-- `a` is free, and `p` and `q` are neighbours on the list of `h`. -/
theorem links_put (free : s.hook a = none) (prev : ∀ b, p = some b → s.hook b = some h)
    (next : ∀ b, q = some b → s.hook b = some h)
    (adjacent : s.links.prev (node h q) = node h p) :
    (s.put a h p q).links = s.links.insertBefore (.inr a) (node h q) := by
  have hang : ∀ {r : Option α}, (∀ b, r = some b → s.hook b = some h) →
      ∀ b, r = some b → update s.hook a (some h) b = some h := by
    intro r here b e
    by_cases self : b = a
    · rw [self, update_self]
    · rw [update_of_ne self, here b e]
  rw [put, links_setNxt (by simpa using hang prev), links_setPrv (hang next),
    Links.insertBefore_eq, adjacent]
  simp only [links, link_hang]
  rw [update_comm (node_ne free prev).symm]
  rfl

/-- Another hook makes a difference to the last node only. -/
theorem link_rehook {x : η ⊕ α} (inner : ∀ b, hook b = some g → b ≠ a → f b ≠ none) :
    update (link first f fun b => if hook b = some g then some h else hook b) (.inr a) x =
      update (link first f hook) (.inr a) x := by
  funext y
  rcases y with k | b
  · rw [update_of_ne Sum.inl_ne_inr, update_of_ne Sum.inl_ne_inr]
    rfl
  · by_cases self : b = a
    · subst self
      rw [update_self, update_self]
    · rw [update_of_ne fun e => self (Sum.inr.inj e), update_of_ne fun e => self (Sum.inr.inj e)]
      by_cases moved : hook b = some g
      · obtain ⟨c, next⟩ := Option.ne_none_iff_exists'.mp (inner b moved self)
        simp [link, moved, next, node]
      · simp [link, moved]

theorem flush_hook {w : Option α} :
    (s.flush g h w).hook b = if s.hook b = some g then some h else s.hook b := by
  simp [flush]

end Hooked

/-! ## The lists -/

/-- The pointers of the nodes of `l` and of its hook. -/
structure Threaded (s : Hooked η α) (h : η) (l : List α) : Prop where
  nodup : l.Nodup
  head : s.head h = l.head?
  tail : s.tail h = l.getLast?
  nxt : ∀ l₁ a l₂, l = l₁ ++ a :: l₂ → s.nxt a = l₂.head?
  prv : ∀ l₁ a l₂, l = l₁ ++ a :: l₂ → s.prv a = l₁.getLast?

/-- Each hook has its list, and each node is on that of its hook. -/
structure OnHooks (s : Hooked η α) (l : η → List α) : Prop where
  threaded : ∀ h, Threaded s h (l h)
  hook : ∀ a h, s.hook a = some h ↔ a ∈ l h

namespace OnHooks

open Hooked

variable {s : Hooked η α} {l : η → List α} {a b : α} {h : η} {l₁ l₂ m : List α}

theorem empty : OnHooks (Hooked.empty : Hooked η α) fun _ => [] := by
  refine ⟨fun h => ⟨List.nodup_nil, rfl, rfl, fun l₁ a l₂ split => ?_, fun l₁ a l₂ split => ?_⟩,
    fun a h => iff_of_false (fun e => by cases e) List.not_mem_nil⟩
  · simp at split
  · simp at split

theorem headD_map : (m.map Sum.inr).headD (.inl h) = node h m.head? := by
  cases m <;> rfl

theorem getLastD_map : (m.map (Sum.inr : α → η ⊕ α)).getLastD (.inl h) = node h m.getLast? := by
  rw [List.getLastD_eq_getLast?, List.getLast?_map]
  cases m.getLast? <;> rfl

/-- From any node of the list the links run to its end. -/
theorem segment (hooks : OnHooks s l) : ∀ l₂ l₁ : List α, l h = l₁ ++ l₂ →
    Segment s.links (node h l₁.getLast?) (l₂.map .inr) (.inl h)
  | [], l₁, split => by
      have threaded := hooks.threaded h
      have all : l h = l₁ := by rw [split, List.append_nil]
      refine ⟨?_, ?_⟩
      · rcases List.eq_nil_or_concat l₁ with rfl | ⟨m, a, rfl⟩
        · show node h (s.head h) = node h none
          rw [threaded.head, split]
          rfl
        · rw [List.concat_eq_append] at all ⊢
          have own : s.hook a = some h := (hooks.hook a h).mpr (by simp [all])
          have nxt : s.nxt a = none := threaded.nxt m a [] all
          rw [List.getLast?_concat]
          simp [links, link, node, own, nxt]
      · show node h (s.tail h) = node h l₁.getLast?
        rw [threaded.tail, all]
  | a :: l₂, l₁, split => by
      have threaded := hooks.threaded h
      have own : s.hook a = some h := (hooks.hook a h).mpr (by simp [split])
      have prv : s.prv a = l₁.getLast? := threaded.prv l₁ a l₂ split
      refine ⟨?_, ?_, ?_⟩
      · rcases List.eq_nil_or_concat l₁ with rfl | ⟨m, b, rfl⟩
        · show node h (s.head h) = node h (some a)
          rw [threaded.head, split]
          rfl
        · rw [List.concat_eq_append] at split ⊢
          have own : s.hook b = some h := (hooks.hook b h).mpr (by simp [split])
          have nxt : s.nxt b = some a := threaded.nxt m b (a :: l₂) (by simp [split])
          rw [List.getLast?_concat]
          simp [links, link, node, own, nxt]
      · simp [links, link, own, prv]
      · have rest := hooks.segment l₂ (l₁ ++ [a]) (by simp [split])
        rwa [List.getLast?_concat] at rest

theorem rings (hooks : OnHooks s l) : Rings s.links Sum.inl fun h => (l h).map Sum.inr := by
  refine ⟨fun h => ⟨?_, hooks.segment (l h) [] rfl⟩, fun h k x hx hk => ?_⟩
  · refine List.nodup_cons.mpr ⟨by simp, ?_⟩
    exact (hooks.threaded h).nodup.map Sum.inr_injective
  · rcases x with g | a
    · have first : g = h := by simpa using hx
      have second : g = k := by simpa using hk
      rw [← first, second]
    · have first : a ∈ l h := by simpa using hx
      have second : a ∈ l k := by simpa using hk
      exact Option.some.inj (((hooks.hook a h).mpr first).symm.trans ((hooks.hook a k).mpr second))

/-- Two neighbours on a list, or the hook and the node at an end. -/
theorem adjacent (rings : Rings s.links Sum.inl fun h => (l h).map Sum.inr) (l₁ l₂ : List α)
    (split : l h = l₁ ++ l₂) :
    s.links.next (node h l₁.getLast?) = node h l₂.head? ∧
      s.links.prev (node h l₂.head?) = node h l₁.getLast? := by
  have parts := (rings.ring h).segment
  rw [split, List.map_append] at parts
  rw [← getLastD_map, ← headD_map]
  exact parts.adjacent

theorem of_rings (rings : Rings s.links Sum.inl fun h => (l h).map Sum.inr)
    (hook : ∀ a h, s.hook a = some h ↔ a ∈ l h) : OnHooks s l := by
  refine ⟨fun h => ?_, hook⟩
  refine ⟨((List.nodup_cons.mp (rings.ring h).nodup).2).of_map _, ?_, ?_, fun l₁ a l₂ split => ?_,
    fun l₁ a l₂ split => ?_⟩
  · exact node_injective (adjacent rings [] (l h) rfl).1
  · exact node_injective (adjacent rings (l h) [] (List.append_nil _).symm).2
  · have own : s.hook a = some h := (hook a h).mpr (by simp [split])
    have next : s.links.next (node h (l₁ ++ [a]).getLast?) = node h l₂.head? :=
      (adjacent rings _ l₂ (by simp [split])).1
    rw [List.getLast?_concat] at next
    refine node_injective (Eq.trans ?_ next)
    simp [links, link, node, own]
  · have own : s.hook a = some h := (hook a h).mpr (by simp [split])
    have prev := (adjacent rings l₁ (a :: l₂) split).2
    refine node_injective (Eq.trans ?_ prev)
    simp [links, link, node, own]

section

variable (hooks : OnHooks s l) (own : s.hook a = some h)
include hooks own

/-- The pointers of a node lead to its neighbours. -/
theorem neighbours : ∃ l₁ l₂, l h = l₁ ++ a :: l₂ ∧ s.prv a = l₁.getLast? ∧ s.nxt a = l₂.head? := by
  obtain ⟨l₁, l₂, split⟩ := List.append_of_mem ((hooks.hook a h).mp own)
  have threaded := hooks.threaded h
  exact ⟨l₁, l₂, split, threaded.prv l₁ a l₂ split, threaded.nxt l₁ a l₂ split⟩

theorem nxt_hook (next : s.nxt a = some b) : s.hook b = some h := by
  obtain ⟨l₁, l₂, split, -, nxt⟩ := hooks.neighbours own
  have mem := List.mem_of_head? (nxt.symm.trans next)
  exact (hooks.hook b h).mpr (by simp [split, mem])

theorem prv_hook (prev : s.prv a = some b) : s.hook b = some h := by
  obtain ⟨l₁, l₂, split, prv, -⟩ := hooks.neighbours own
  have mem := List.mem_of_getLast? (prv.symm.trans prev)
  exact (hooks.hook b h).mpr (by simp [split, mem])

end

theorem free (hooks : OnHooks s l) (out : s.hook a = none) (h : η) : a ∉ l h := by
  rw [← hooks.hook a h, out]
  simp

/-- What the pointers of a free node are does not matter. -/
theorem frame {s' : Hooked η α} (hooks : OnHooks s l) (head : s'.head = s.head)
    (tail : s'.tail = s.tail) (hook : s'.hook = s.hook)
    (nxt : ∀ b h, s.hook b = some h → s'.nxt b = s.nxt b)
    (prv : ∀ b h, s.hook b = some h → s'.prv b = s.prv b) : OnHooks s' l := by
  refine ⟨fun h => ?_, fun b h => by rw [hook]; exact hooks.hook b h⟩
  have threaded := hooks.threaded h
  have own {l₁ l₂ : List α} {b : α} (split : l h = l₁ ++ b :: l₂) : s.hook b = some h :=
    (hooks.hook b h).mpr (by simp [split])
  refine ⟨threaded.nodup, by rw [head]; exact threaded.head, by rw [tail]; exact threaded.tail,
    fun l₁ b l₂ split => ?_, fun l₁ b l₂ split => ?_⟩
  · rw [nxt b h (own split)]
    exact threaded.nxt l₁ b l₂ split
  · rw [prv b h (own split)]
    exact threaded.prv l₁ b l₂ split

variable [DecidableEq η] [DecidableEq α]

omit [DecidableEq α] in
theorem map_update : (fun k => (update l h m k).map (Sum.inr : α → η ⊕ α)) =
    update (fun k => (l k).map Sum.inr) h (m.map Sum.inr) := by
  funext k
  exact apply_update (fun _ => List.map Sum.inr) l h m k

omit [DecidableEq η] in
theorem erase_map {β : Type} [DecidableEq β] {f : α → β} (injective : Injective f) :
    (m.map f).erase (f a) = (m.erase a).map f := (List.map_erase injective m).symm

/-- A node leaves its list. -/
theorem drop (hooks : OnHooks s l) (own : s.hook a = some h) :
    OnHooks (s.drop a h) (update l h ((l h).erase a)) := by
  have nodup := (hooks.threaded h).nodup
  have mem : a ∈ l h := (hooks.hook a h).mp own
  refine .of_rings ?_ fun b k => ?_
  · have rings := hooks.rings.erase (List.mem_map_of_mem mem)
    rw [erase_map Sum.inr_injective, ← map_update] at rings
    rw [links_drop own (fun b => hooks.nxt_hook own) fun b => hooks.prv_hook own]
    refine rings.reset fun k here => ?_
    have here : a ∈ update l h ((l h).erase a) k := by simpa using here
    by_cases same : k = h
    · rw [same, update_self] at here
      exact nodup.not_mem_erase here
    · rw [update_of_ne same] at here
      exact same (Option.some.inj (((hooks.hook a k).mpr here).symm.trans own))
  · rw [drop_hook]
    by_cases self : b = a
    · subst self
      rw [update_self]
      by_cases same : k = h
      · rw [same, update_self]
        exact iff_of_false (by simp) nodup.not_mem_erase
      · rw [update_of_ne same, ← hooks.hook b k, own]
        exact iff_of_false (by simp) fun e => same (Option.some.inj e).symm
    · rw [update_of_ne self, hooks.hook b k]
      by_cases same : k = h
      · rw [same, update_self, List.mem_erase_of_ne self]
      · rw [update_of_ne same]

/-- A free node comes between two others, or to an end. -/
theorem put (hooks : OnHooks s l) (free : s.hook a = none) (split : l h = l₁ ++ l₂) :
    OnHooks (s.put a h l₁.getLast? l₂.head?) (update l h (l₁ ++ a :: l₂)) := by
  have inside {b : α} (mem : b ∈ l₁ ++ l₂) : s.hook b = some h :=
    (hooks.hook b h).mpr (split ▸ mem)
  refine .of_rings ?_ fun b k => ?_
  · rw [links_put free (fun b last => inside (by simp [List.mem_of_getLast? last]))
      (fun b first => inside (by simp [List.mem_of_head? first]))
      (adjacent hooks.rings l₁ l₂ split).2, map_update, List.map_append, List.map_cons]
    refine hooks.rings.insertBefore (fun k => ?_) ?_ ?_
    · simpa using hooks.free free k
    · simp [split]
    · exact headD_map
  · rw [put_hook]
    by_cases self : b = a
    · subst self
      rw [update_self]
      by_cases same : k = h
      · simp [same]
      · rw [update_of_ne same]
        exact iff_of_false (fun e => same (Option.some.inj e).symm) (hooks.free free k)
    · rw [update_of_ne self, hooks.hook b k]
      by_cases same : k = h
      · rw [same, update_self, split]
        simp [self]
      · rw [update_of_ne same]

omit [DecidableEq η] [DecidableEq α] in
theorem before_eq (hooks : OnHooks s l) (split : l h = l₁ ++ l₂) :
    s.before h l₂.head? = l₁.getLast? := by
  cases l₂ with
  | nil =>
      rw [List.append_nil] at split
      rw [← split]
      exact (hooks.threaded h).tail
  | cons b l₂ => exact (hooks.threaded h).prv l₁ b l₂ split

theorem links_flush (hooks : OnHooks s l) (filled : l g ≠ []) (split : l h = l₁ ++ l₂) :
    (s.flush g h l₂.head?).links = s.links.splice (.inl g) (node h l₂.head?) := by
  have threaded := hooks.threaded g
  obtain ⟨c, rest, front⟩ := List.exists_cons_of_ne_nil filled
  obtain ⟨m, d, rear⟩ := (l g).eq_nil_or_concat.resolve_left filled
  rw [List.concat_eq_append] at rear
  have first : s.head g = some c := by rw [threaded.head, front]; rfl
  have last : s.tail g = some d := by rw [threaded.tail, rear, List.getLast?_concat]
  have own {b : α} (mem : b ∈ l g) : s.hook b = some g := (hooks.hook b g).mpr mem
  have inside {b : α} (mem : b ∈ l₁ ++ l₂) : s.hook b = some h :=
    (hooks.hook b h).mpr (split ▸ mem)
  have nxt (b : α) (here : s.hook b = some g) (ne : b ≠ d) : s.nxt b ≠ none := by
    obtain ⟨m₁, m₂, parts, -, nxt⟩ := hooks.neighbours here
    intro e
    have nil : m₂ = [] := List.head?_eq_none_iff.mp (nxt.symm.trans e)
    rw [nil] at parts
    exact ne (List.cons.inj (List.append_inj' (parts.symm.trans rear) rfl).2).1
  have prv (b : α) (here : s.hook b = some g) (ne : b ≠ c) : s.prv b ≠ none := by
    obtain ⟨m₁, m₂, parts, prv, -⟩ := hooks.neighbours here
    intro e
    have nil : m₁ = [] := List.getLast?_eq_none_iff.mp (prv.symm.trans e)
    rw [nil] at parts
    exact ne (List.cons.inj (parts.symm.trans front)).1
  have here {p : Option α} (two : ∀ b, p = some b → s.hook b = some g ∨ s.hook b = some h) :
      ∀ b, p = some b → (if s.hook b = some g then some h else s.hook b) = some h := by
    intro b e
    split
    next => rfl
    next other => exact (two b e).resolve_left other
  have atFirst := here fun b (e : some c = some b) =>
    .inl (own (Option.some.inj e ▸ by simp [front]))
  have atLast := here fun b (e : some d = some b) =>
    .inl (own (Option.some.inj e ▸ by simp [rear]))
  have atNext := here fun b (e : l₂.head? = some b) =>
    .inr (inside (by simp [List.mem_of_head? e]))
  have atPrev := here fun b (e : l₁.getLast? = some b) =>
    .inr (inside (by simp [List.mem_of_getLast? e]))
  rw [Hooked.flush]
  simp only [first, last, hooks.before_eq split]
  rw [links_setPrv (by simp), links_setNxt (by simp), links_setNxt (by simpa using atPrev),
    links_setPrv (by simpa using atNext), links_setPrv (by simpa using atFirst),
    links_setNxt (by simpa using atLast)]
  have firstLink : s.links.next (.inl g) = .inr c := by simp [links, link, first, node]
  have lastLink : s.links.prev (.inl g) = .inr d := by simp [links, link, last, node]
  rw [Links.splice, (adjacent hooks.rings l₁ l₂ split).2, firstLink, lastLink]
  simp only [links, node, link_rehook nxt, link_rehook prv]

theorem flush (hooks : OnHooks s l) (other : g ≠ h) (filled : l g ≠ []) (split : l h = l₁ ++ l₂) :
    OnHooks (s.flush g h l₂.head?) (update (update l g []) h (l₁ ++ (l g ++ l₂))) := by
  refine .of_rings ?_ fun b k => ?_
  · rw [map_update, map_update, List.map_append, List.map_append, hooks.links_flush filled split]
    refine hooks.rings.splice other ?_ ?_ headD_map
    · simpa using filled
    · simp [split]
  · rw [flush_hook]
    by_cases here : k = h
    · subst here
      rw [update_self]
      by_cases moved : s.hook b = some g
      · rw [if_pos moved]
        exact iff_of_true rfl (by simp [(hooks.hook b g).mp moved])
      · rw [if_neg moved, hooks.hook b k, split]
        have out : b ∉ l g := mt (hooks.hook b g).mpr moved
        simp [out]
    · rw [update_of_ne here]
      by_cases old : k = g
      · subst old
        rw [update_self]
        refine iff_of_false (fun e => ?_) List.not_mem_nil
        split at e
        · exact here (Option.some.inj e).symm
        · contradiction
      · rw [update_of_ne old, ← hooks.hook b k]
        by_cases moved : s.hook b = some g
        · rw [if_pos moved, moved]
          exact iff_of_false (fun e => here (Option.some.inj e).symm)
            fun e => old (Option.some.inj e).symm
        · rw [if_neg moved]

omit [DecidableEq η] [DecidableEq α] in
/-- From a node of the list the pointers run through the rest. -/
theorem chain_from (hooks : OnHooks s l) : ∀ {l₂ l₁ : List α}, l h = l₁ ++ l₂ →
    Chain s.nxt l₂.head? l₂
  | [], _, _ => rfl
  | a :: l₂, l₁, split => by
      refine ⟨rfl, ?_⟩
      rw [(hooks.threaded h).nxt l₁ a l₂ split]
      have split' : l h = (l₁ ++ [a]) ++ l₂ := by simp [split]
      exact hooks.chain_from split'

omit [DecidableEq η] [DecidableEq α] in
/-- From the hook the pointers run through the list, and end. -/
theorem chain (hooks : OnHooks s l) (h : η) : Chain s.nxt (s.head h) (l h) := by
  rw [(hooks.threaded h).head]
  exact hooks.chain_from (List.nil_append _).symm

end OnHooks

end Rtai.Lib
