import Mathlib.Logic.Function.Basic
import ShiftFirst.Proofs.Formula.Safety

namespace ShiftFirst

/-- What has a registry of listeners, to which its subscriptions and cancellations are left. -/
class Traced (H : Type) where
  registry : H → Registry Nat
  subscribe : H → Channel → Nat → Subscription × H
  cancel : H → Subscription → Bool × H
  subscribe_registry (h : H) (channel : Channel) (listener : Nat) :
    ((subscribe h channel listener).1, registry (subscribe h channel listener).2) =
      (registry h).subscribe channel listener
  cancel_registry (h : H) (s : Subscription) :
    ((cancel h s).1, registry (cancel h s).2) = (registry h).cancel s

instance : Traced (Registry Nat) where
  registry r := r
  subscribe := Registry.subscribe
  cancel := Registry.cancel
  subscribe_registry _ _ _ := rfl
  cancel_registry _ _ := rfl

instance {V : Type} : Traced (Session V) where
  registry := Session.trace
  subscribe := Session.subscribe
  cancel := Session.cancel
  subscribe_registry _ _ _ := rfl
  cancel_registry _ _ := rfl

instance : Traced Formula where
  registry f := f.session.trace
  subscribe := Formula.observe
  cancel := Formula.cancel
  subscribe_registry _ _ _ := rfl
  cancel_registry _ _ := rfl

/-- Several of these, with the handles they have given out. A subscription is known by the place of
its handle, and its listener has the same number. -/
structure Family (ι H : Type) where
  member : ι → H
  handles : List Subscription := []

namespace Family

variable {ι H : Type}

inductive Call where
  | subscribe (channel : Channel)
  /-- Cancels with the handle of a subscription, which another member may have given out. -/
  | cancel (handle : Nat)
  deriving DecidableEq

/-- Makes a call on a member, and gives the answer to a cancellation. -/
def call [DecidableEq ι] [Traced H] (f : Family ι H) (t : ι) : Call → Option Bool × Family ι H
  | .subscribe channel =>
    let (s, h) := Traced.subscribe (f.member t) channel f.handles.length
    (none, ⟨Function.update f.member t h, f.handles ++ [s]⟩)
  | .cancel handle =>
    match f.handles[handle]? with
    | none => (none, f)
    | some s =>
      let (found, h) := Traced.cancel (f.member t) s
      (some found, { f with member := Function.update f.member t h })

section Registries

variable [Traced H] (f : Family ι H)

def registries (t : ι) : Registry Nat := Traced.registry (f.member t)

/-- The subscriptions that stand on a member, in order. -/
def standing (t : ι) : List Nat := (f.registries t).entries.map (·.2)

variable [DecidableEq ι]

theorem call_subscribe (t : ι) (channel : Channel) :
    (f.call t (.subscribe channel)).2.handles =
        f.handles ++ [((f.registries t).subscribe channel f.handles.length).1] ∧
      (f.call t (.subscribe channel)).2.registries =
        Function.update f.registries t
          ((f.registries t).subscribe channel f.handles.length).2 := by
  have law := Traced.subscribe_registry (f.member t) channel f.handles.length
  have kept := Function.comp_update Traced.registry f.member t
    (Traced.subscribe (f.member t) channel f.handles.length).2
  refine ⟨congrArg (f.handles ++ [·]) (congrArg Prod.fst law), kept.trans ?_⟩
  exact congrArg (Function.update f.registries t) (congrArg Prod.snd law)

theorem call_cancel (t : ι) {handle : Nat} {s : Subscription} (hs : f.handles[handle]? = some s) :
    (f.call t (.cancel handle)).1 = some ((f.registries t).cancel s).1 ∧
      (f.call t (.cancel handle)).2.handles = f.handles ∧
      (f.call t (.cancel handle)).2.registries =
        Function.update f.registries t ((f.registries t).cancel s).2 := by
  have law := Traced.cancel_registry (f.member t) s
  have kept := Function.comp_update Traced.registry f.member t (Traced.cancel (f.member t) s).2
  have done : f.call t (.cancel handle) = (some (Traced.cancel (f.member t) s).1,
      { f with member := Function.update f.member t (Traced.cancel (f.member t) s).2 }) := by
    simp only [call, hs]
  rw [done]
  refine ⟨congrArg some (congrArg Prod.fst law), rfl, kept.trans ?_⟩
  exact congrArg (Function.update f.registries t) (congrArg Prod.snd law)

theorem call_cancel_none (t : ι) {handle : Nat} (hs : f.handles[handle]? = none) :
    f.call t (.cancel handle) = (none, f) := by
  simp only [call, hs]

end Registries

end Family

/-- What subscriptions were made, each with where it was made, and which of them stand. -/
structure Ledger (ι : Type) where
  made : List (ι × Channel) := []
  standing : ι → List Nat := fun _ => []

namespace Ledger

variable {ι : Type} [DecidableEq ι]

/-- Takes out a subscription of a member. -/
def strike (l : Ledger ι) (t : ι) (handle : Nat) : Ledger ι :=
  { l with standing := Function.update l.standing t ((l.standing t).filter (· ≠ handle)) }

theorem strike_self (l : Ledger ι) (t : ι) (handle : Nat) :
    (l.strike t handle).standing t = (l.standing t).filter (· ≠ handle) := Function.update_self ..

theorem strike_of_ne (l : Ledger ι) {t u : ι} (ne : u ≠ t) (handle : Nat) :
    (l.strike t handle).standing u = l.standing u := Function.update_of_ne ne ..

/-- What becomes of the subscriptions at a call on a member, where a cancellation is the business
of the subscription's own member alone. -/
def call (l : Ledger ι) (t : ι) : Family.Call → Option Bool × Ledger ι
  | .subscribe channel =>
    (none, ⟨l.made ++ [(t, channel)],
      Function.update l.standing t (l.standing t ++ [l.made.length])⟩)
  | .cancel handle =>
    if handle < l.made.length then
      (some (handle ∈ l.standing t), l.strike t handle)
    else (none, l)

/-- How many subscriptions a member had when one was made on it. -/
def rank (l : Ledger ι) (t : ι) (handle : Nat) : Nat :=
  (l.made.take handle).countP (·.1 = t)

/-- The handle of another member's subscription looks like that of a standing one of this member:
both are for the same channel, and each is the so-manieth of its member. -/
def Confuses (l : Ledger ι) (t : ι) (handle twin : Nat) : Prop :=
  ∃ u channel, u ≠ t ∧ l.made[handle]? = some (u, channel) ∧ l.made[twin]? = some (t, channel) ∧
    l.rank u handle = l.rank t twin ∧ twin ∈ l.standing t

theorem rank_lt (l : Ledger ι) {t : ι} {channel : Channel} {j k : Nat}
    (made : l.made[j]? = some (t, channel)) (lt : j < k) : l.rank t j < l.rank t k := by
  have next : l.rank t (j + 1) = l.rank t j + 1 := by
    simp [rank, List.take_add_one, made]
  have grows : l.rank t (j + 1) ≤ l.rank t k :=
    (List.take_prefix_take_left lt).sublist.countP_le
  omega

/-- Subscriptions of one member are told apart by their handles. -/
theorem rank_injective (l : Ledger ι) {t : ι} {channel channel' : Channel} {j k : Nat}
    (made : l.made[j]? = some (t, channel)) (made' : l.made[k]? = some (t, channel'))
    (same : l.rank t j = l.rank t k) : j = k := by
  rcases Nat.lt_trichotomy j k with lt | eq | gt
  · have := l.rank_lt made lt
    omega
  · exact eq
  · have := l.rank_lt made' gt
    omega

theorem rank_append (l : Ledger ι) (t : ι) {k : Nat} (old : k ≤ l.made.length)
    (later : List (ι × Channel)) (standing : ι → List Nat) :
    rank ⟨l.made ++ later, standing⟩ t k = l.rank t k := by
  simp [rank, List.take_append_of_le_length old]

theorem rank_length_append (l : Ledger ι) (t u : ι) (channel : Channel)
    (standing : ι → List Nat) :
    rank ⟨l.made ++ [(t, channel)], standing⟩ u (l.made.length + 1) =
      l.rank u l.made.length + if t = u then 1 else 0 := by
  simp [rank, List.take_of_length_le]

/-- A subscription leaves the ones that were made before as they are. -/
theorem call_subscribe_of_lt (l : Ledger ι) (t u : ι) (channel : Channel) {k : Nat}
    (old : k < l.made.length) :
    (l.call t (.subscribe channel)).2.made[k]? = l.made[k]? ∧
      (l.call t (.subscribe channel)).2.rank u k = l.rank u k :=
  ⟨List.getElem?_append_left old, l.rank_append u (Nat.le_of_lt old) _ _⟩

/-- It is itself the last one. -/
theorem call_subscribe_last (l : Ledger ι) (t u : ι) (channel : Channel) :
    (l.call t (.subscribe channel)).2.made[l.made.length]? = some (t, channel) ∧
      (l.call t (.subscribe channel)).2.rank u l.made.length = l.rank u l.made.length :=
  ⟨List.getElem?_concat_length, l.rank_append u (Nat.le_refl _) _ _⟩

end Ledger

section Histories

variable {ι H : Type} [DecidableEq ι] [Traced H]

/-- At each of the calls a family answers as a ledger does, and then has the subscriptions that
stand there. -/
def Family.Follows (f : Family ι H) (l : Ledger ι) : List (ι × Family.Call) → Prop
  | [] => True
  | (t, c) :: calls =>
    (f.call t c).1 = (l.call t c).1 ∧
      (∀ u, (f.call t c).2.standing u = (l.call t c).2.standing u) ∧
      (f.call t c).2.Follows (l.call t c).2 calls

def Family.after (f : Family ι H) (calls : List (ι × Family.Call)) : Family ι H :=
  calls.foldl (fun f c => (f.call c.1 c.2).2) f

/-- None of the calls confuses two subscriptions. -/
def Ledger.Clear (l : Ledger ι) : List (ι × Family.Call) → Prop
  | [] => True
  | (t, c) :: calls =>
    (∀ handle twin, c = .cancel handle → ¬ l.Confuses t handle twin) ∧ (l.call t c).2.Clear calls

def Ledger.after (l : Ledger ι) (calls : List (ι × Family.Call)) : Ledger ι :=
  calls.foldl (fun l c => (l.call c.1 c.2).2) l

/-- Where all calls are made on one member, there is nothing to confuse. -/
theorem Ledger.clear_of_alone {l : Ledger ι} {t : ι} (own : ∀ m ∈ l.made, m.1 = t)
    {calls : List (ι × Family.Call)} (alone : ∀ c ∈ calls, c.1 = t) : l.Clear calls := by
  induction calls generalizing l with
  | nil => trivial
  | cons c calls ih =>
    obtain ⟨u, c⟩ := c
    obtain ⟨rfl, later⟩ := List.forall_mem_cons.mp alone
    refine ⟨?_, ih ?_ later⟩
    · rintro handle twin _ ⟨v, channel, other, made, _⟩
      exact other (own _ (List.mem_of_getElem? made))
    · cases c with
      | subscribe channel =>
        intro m mem
        rcases List.mem_append.mp mem with mem | mem
        · exact own m mem
        · exact congrArg Prod.fst (List.mem_singleton.mp mem)
      | cancel handle =>
        by_cases there : handle < l.made.length
        · rw [Ledger.call, if_pos there]
          exact own
        · rw [Ledger.call, if_neg there]
          exact own

end Histories

section Tallies

variable {ι H : Type} [DecidableEq ι] [Traced H] {f : Family ι H} {l : Ledger ι}

/-- A family has the subscriptions of a ledger, under handles that number those of each member. -/
structure Tallies (f : Family ι H) (l : Ledger ι) : Prop where
  length : f.handles.length = l.made.length
  handle : ∀ {k : Nat} {t : ι} {channel : Channel}, l.made[k]? = some (t, channel) →
    f.handles[k]? = some ⟨channel, l.rank t k⟩
  next : ∀ t, (f.registries t).nextId = l.rank t l.made.length
  standing : ∀ t, f.standing t = l.standing t
  entry : ∀ t, ∀ e ∈ (f.registries t).entries,
    l.made[e.2]? = some (t, e.1.channel) ∧ e.1.id = l.rank t e.2

namespace Tallies

theorem fresh {member : ι → H} (none : ∀ t, Traced.registry (member t) = {}) :
    Tallies (⟨member, []⟩ : Family ι H) {} where
  length := rfl
  handle h := by simp at h
  next t := by simp [Family.registries, none, Ledger.rank]
  standing t := by simp [Family.standing, Family.registries, none]
  entry t e mem := by simp [Family.registries, none] at mem

/-- On the member that a subscription was made on, its handle is that of no other. -/
theorem entry_iff (h : Tallies f l) {t : ι} {k : Nat} {channel : Channel}
    (made : l.made[k]? = some (t, channel)) {e : Subscription × Nat}
    (mem : e ∈ (f.registries t).entries) :
    e.1 = ⟨channel, l.rank t k⟩ ↔ e.2 = k := by
  obtain ⟨⟨channel', id⟩, number⟩ := e
  obtain ⟨made', numbered⟩ := h.entry t _ mem
  constructor
  · intro same
    obtain ⟨rfl, rfl⟩ := Subscription.mk.inj same
    exact l.rank_injective made' made numbered.symm
  · rintro rfl
    cases made'.symm.trans made
    exact congrArg _ numbered

theorem subscribe (h : Tallies f l) (t : ι) (channel : Channel) :
    Tallies (f.call t (.subscribe channel)).2 (l.call t (.subscribe channel)).2 := by
  obtain ⟨handles, registries⟩ := f.call_subscribe t channel
  have number : ((f.registries t).subscribe channel f.handles.length).1 =
      ⟨channel, l.rank t l.made.length⟩ := congrArg _ (h.next t)
  have last := l.call_subscribe_last t t channel
  rw [number] at handles
  refine ⟨?_, fun {k u channel'} made => ?_, fun u => ?_, fun u => ?_, fun u e mem => ?_⟩
  · simp [handles, Ledger.call, h.length]
  · rw [handles]
    rcases getElem?_concat made with ⟨lt, old⟩ | ⟨rfl, new⟩
    · have kept := l.call_subscribe_of_lt t u channel lt
      rw [kept.2, List.getElem?_append_left (h.length ▸ lt), h.handle old]
    · cases new
      rw [last.2, ← h.length, List.getElem?_concat_length]
  · rw [registries, Ledger.call, List.length_append, List.length_singleton, l.rank_length_append]
    by_cases same : u = t
    · subst same
      simp [Registry.subscribe, h.next]
    · simp [Function.update_of_ne same, Ne.symm same, h.next]
  · have stood := h.standing u
    unfold Family.standing at stood ⊢
    rw [registries, Ledger.call]
    by_cases same : u = t
    · subst same
      simp [Registry.subscribe, stood, h.length]
    · simp [Function.update_of_ne same, stood]
  · have old : e ∈ (f.registries u).entries →
        (l.call t (.subscribe channel)).2.made[e.2]? = some (u, e.1.channel) ∧
          e.1.id = (l.call t (.subscribe channel)).2.rank u e.2 := by
      intro mem
      obtain ⟨made, numbered⟩ := h.entry u e mem
      have kept := l.call_subscribe_of_lt t u channel (List.getElem?_eq_some_iff.mp made).1
      exact ⟨kept.1.trans made, numbered.trans kept.2.symm⟩
    rw [registries] at mem
    by_cases same : u = t
    · subst same
      rw [Function.update_self] at mem
      rcases List.mem_append.mp mem with mem | mem
      · exact old mem
      · cases List.mem_singleton.mp mem
        rw [h.length]
        exact ⟨last.1, (h.next u).trans last.2.symm⟩
    · rw [Function.update_of_ne same] at mem
      exact old mem

/-- A cancellation with a handle that one standing subscription has, or none, is the cancellation
of that subscription. -/
theorem cancel (h : Tallies f l) {t : ι} {handle number : Nat} {s : Subscription}
    (hs : f.handles[handle]? = some s)
    (same : ∀ e ∈ (f.registries t).entries, e.1 = s ↔ e.2 = number) :
    (f.call t (.cancel handle)).1 = some (decide (number ∈ l.standing t)) ∧
      Tallies (f.call t (.cancel handle)).2 (l.strike t number) := by
  obtain ⟨answer, handles, registries⟩ := f.call_cancel t hs
  constructor
  · rw [answer, ← h.standing t]
    have found : (f.registries t).entries.any (·.1 = s) = true ↔ number ∈ f.standing t := by
      rw [List.any_eq_true, Family.standing, List.mem_map]
      exact exists_congr fun e => and_congr_right fun mem => by simpa using same e mem
    exact congrArg some (Bool.eq_iff_iff.mpr (found.trans (decide_eq_true_iff).symm))
  · refine ⟨handles ▸ h.length, fun made => handles ▸ h.handle made, fun u => ?_, fun u => ?_,
      fun u e mem => ?_⟩
    · rw [registries]
      by_cases here : u = t
      · subst here
        rw [Function.update_self]
        exact h.next u
      · rw [Function.update_of_ne here]
        exact h.next u
    · have stood := h.standing u
      rw [Family.standing] at stood ⊢
      rw [registries]
      by_cases here : u = t
      · subst here
        rw [Function.update_self, l.strike_self, ← stood, List.filter_map, Registry.cancel]
        refine congrArg _ (List.filter_congr fun e mem => ?_)
        simpa using same e mem
      · rw [Function.update_of_ne here, l.strike_of_ne here]
        exact stood
    · rw [registries] at mem
      by_cases here : u = t
      · subst here
        rw [Function.update_self] at mem
        exact h.entry u e (List.mem_filter.mp mem).1
      · rw [Function.update_of_ne here] at mem
        exact h.entry u e mem

/-- Unless it confuses two subscriptions, a cancellation does what it should. -/
theorem cancel_own (h : Tallies f l) {t : ι} {handle : Nat}
    (clear : ∀ twin, ¬ l.Confuses t handle twin) :
    (f.call t (.cancel handle)).1 = (l.call t (.cancel handle)).1 ∧
      Tallies (f.call t (.cancel handle)).2 (l.call t (.cancel handle)).2 := by
  by_cases there : handle < l.made.length
  · rw [Ledger.call, if_pos there]
    obtain ⟨⟨u, channel⟩, made⟩ : ∃ m, l.made[handle]? = some m :=
      ⟨_, List.getElem?_eq_getElem there⟩
    refine h.cancel (h.handle made) fun e mem => ?_
    by_cases own : u = t
    · subst own
      exact h.entry_iff made mem
    · obtain ⟨made', numbered⟩ := h.entry t e mem
      refine ⟨fun same => ?_, fun same => ?_⟩
      · rw [same] at made' numbered
        have stands : e.2 ∈ l.standing t := h.standing t ▸ List.mem_map_of_mem mem
        exact absurd ⟨u, channel, own, made, made', numbered, stands⟩ (clear e.2)
      · rw [same, made] at made'
        cases made'
        exact absurd rfl own
  · have absent : f.handles[handle]? = none :=
      List.getElem?_eq_none_iff.mpr (h.length ▸ Nat.le_of_not_lt there)
    rw [Ledger.call, if_neg there, f.call_cancel_none t absent]
    exact ⟨rfl, h⟩

/-- Where it confuses two subscriptions, the other member's handle cancels its twin. -/
theorem cancel_twin (h : Tallies f l) {t : ι} {handle twin : Nat}
    (confused : l.Confuses t handle twin) :
    (f.call t (.cancel handle)).1 = some true ∧
      Tallies (f.call t (.cancel handle)).2 (l.strike t twin) := by
  obtain ⟨u, channel, other, made, made', same, stands⟩ := confused
  have hs := h.handle made
  rw [same] at hs
  have cancelled := h.cancel hs fun e mem => h.entry_iff made' mem
  rwa [decide_eq_true stands] at cancelled

theorem made_of_standing (h : Tallies f l) {t : ι} {k : Nat} (stands : k ∈ l.standing t) :
    ∃ channel, l.made[k]? = some (t, channel) := by
  rw [← h.standing t] at stands
  obtain ⟨e, mem, rfl⟩ := List.mem_map.mp stands
  exact ⟨_, (h.entry t e mem).1⟩

/-- A call that confuses no subscriptions is answered as in the ledger, and keeps the account. -/
theorem call (h : Tallies f l) {t : ι} {c : Family.Call}
    (clear : ∀ handle twin, c = .cancel handle → ¬ l.Confuses t handle twin) :
    (f.call t c).1 = (l.call t c).1 ∧ Tallies (f.call t c).2 (l.call t c).2 := by
  cases c with
  | subscribe channel => exact ⟨rfl, h.subscribe t channel⟩
  | cancel handle => exact h.cancel_own fun twin => clear handle twin rfl

theorem answer_of_confused (h : Tallies f l) {t : ι} {handle twin : Nat}
    (confused : l.Confuses t handle twin) :
    (f.call t (.cancel handle)).1 ≠ (l.call t (.cancel handle)).1 := by
  have answer := (h.cancel_twin confused).1
  obtain ⟨u, channel, other, made, _⟩ := confused
  have there := (List.getElem?_eq_some_iff.mp made).1
  have foreign : handle ∉ l.standing t := by
    intro stands
    obtain ⟨channel', made'⟩ := h.made_of_standing stands
    cases made.symm.trans made'
    exact other rfl
  rw [answer, Ledger.call, if_pos there]
  simpa using foreign

theorem follows_iff (h : Tallies f l) (calls : List (ι × Family.Call)) :
    f.Follows l calls ↔ l.Clear calls := by
  induction calls generalizing f l with
  | nil => exact Iff.rfl
  | cons c calls ih =>
    obtain ⟨t, c⟩ := c
    constructor
    · rintro ⟨answer, _, later⟩
      have clear : ∀ handle twin, c = .cancel handle → ¬ l.Confuses t handle twin := by
        rintro handle twin rfl confused
        exact h.answer_of_confused confused answer
      exact ⟨clear, (ih (h.call clear).2).mp later⟩
    · rintro ⟨clear, later⟩
      obtain ⟨answer, tallies⟩ := h.call clear
      exact ⟨answer, tallies.standing, (ih tallies).mpr later⟩

theorem after (h : Tallies f l) {calls : List (ι × Family.Call)} (clear : l.Clear calls) :
    Tallies (f.after calls) (l.after calls) := by
  induction calls generalizing f l with
  | nil => exact h
  | cons c calls ih => exact ih (h.call clear.1).2 clear.2

end Tallies

end Tallies

namespace Family

variable {ι H : Type} [DecidableEq ι] [Traced H]

/-- Handles cancel their own subscriptions, and those alone, exactly in the histories where no
cancellation is made with a handle of another member that looks like the handle of a subscription
standing there. Such a cancellation tells that it has found something, and takes out that other
subscription. On one member alone it does not come up. -/
theorem follows_iff_clear {member : ι → H} (fresh : ∀ t, Traced.registry (member t) = {})
    (calls : List (ι × Call)) :
    ((⟨member, []⟩ : Family ι H).Follows {} calls ↔ Ledger.Clear {} calls) ∧
    (Ledger.Clear {} calls → ∀ t handle twin, (Ledger.after {} calls).Confuses t handle twin →
      (((⟨member, []⟩ : Family ι H).after calls).call t (.cancel handle)).1 = some true ∧
      ∀ u, (((⟨member, []⟩ : Family ι H).after calls).call t (.cancel handle)).2.standing u =
        ((Ledger.after {} calls).strike t twin).standing u) ∧
    ((∀ c ∈ calls, ∀ d ∈ calls, c.1 = d.1) → Ledger.Clear {} calls) := by
  have start : Tallies (⟨member, []⟩ : Family ι H) {} := .fresh fresh
  refine ⟨start.follows_iff calls, fun clear t handle twin confused => ?_, fun alone => ?_⟩
  · obtain ⟨answer, tallies⟩ := (start.after clear).cancel_twin confused
    exact ⟨answer, tallies.standing⟩
  · cases calls with
    | nil => trivial
    | cons c calls =>
      exact Ledger.clear_of_alone (fun m mem => absurd mem List.not_mem_nil)
        fun d mem => alone d mem c List.mem_cons_self

theorem registry_of_new {audience : Audience} {f : Formula}
    (made : (Formula.new audience).answer = .ok f) : Traced.registry f = audience.trace :=
  Formula.trace_of_new made

/-- Two evaluators that nobody listens to. -/
def unheard (_ : Bool) : Formula := Formula.shared

/-- A handle for another channel finds nothing on the second evaluator. -/
theorem follows_iff_clear_unheard :
    (∀ t, Traced.registry (unheard t) = {}) ∧
      (⟨unheard, []⟩ : Family Bool Formula).Follows {}
        [(false, .subscribe .parse), (true, .subscribe .grammar), (true, .cancel 0),
          (false, .cancel 0)] := by
  have fresh (t : Bool) : Traced.registry (unheard t) = {} := by
    rw [unheard]
    exact registry_of_new Formula.shared_new
  have clear : Ledger.Clear ({} : Ledger Bool) [(false, .subscribe .parse),
      (true, .subscribe .grammar), (true, .cancel 0), (false, .cancel 0)] := by
    refine ⟨nofun, nofun, ?_, ?_, trivial⟩
    · rintro _ twin ⟨⟩ ⟨u, channel, _, made, made', _, stands⟩
      obtain rfl : twin = 1 := List.mem_singleton.mp stands
      obtain ⟨_, rfl⟩ := Prod.mk.inj (Option.some.inj made)
      cases Option.some.inj made'
    · rintro _ twin ⟨⟩ ⟨u, channel, other, made, _⟩
      exact other (Prod.mk.inj (Option.some.inj made)).1.symm
  exact ⟨fresh, (follows_iff_clear fresh _).1.mpr clear⟩

/-- Each of two registries gives out the same handle for its first subscription, so that the first
handle of the one cancels the first subscription of the other. -/
theorem twins_confused : ¬ (⟨fun _ : Bool => ({} : Registry Nat), []⟩ : Family Bool _).Follows {}
    [(false, .subscribe .parse), (true, .subscribe .parse), (true, .cancel 0)] := by
  rintro ⟨_, _, _, _, answer, _⟩
  exact absurd answer (by decide)

end Family

end ShiftFirst
