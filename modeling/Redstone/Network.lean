import Mathlib.Data.Finmap
import Redstone.SocketAddr
import Redstone.StepRuns

/-!
# Address ownership in the network map

The map sends an address to a weak pointer. An entry may be absent, empty, expired
or live, and lookups and failed binds create empty entries. Only what a slot
resolves to is observable; the history of binds, clears and destructions determines
it. Socket objects have identities that are never reused.
-/

namespace Network

open MachineWords SocketAddr StepRuns

abbrev SocketId := Nat

/-- `map_` together with the socket objects that no longer exist. -/
structure Net where
  map : Finmap (fun _ : Addr => Option SocketId)
  destroyed : Finset SocketId

def empty : Net := ⟨∅, ∅⟩

namespace Net

/-- `weak_ptr::lock`: null when the pointer is empty or its object is gone. -/
def lock (n : Net) (slot : Option SocketId) : Option SocketId :=
  slot.filter (fun s => s ∉ n.destroyed)

/-- What the slot of an address locks to, null for an absent slot. -/
def resolve (n : Net) (addr : Addr) : Option SocketId :=
  n.lock (n.map.lookup addr).join

/-- `map_[addr]`: an absent entry is created empty. -/
def touch (n : Net) (addr : Addr) : Net :=
  if addr ∈ n.map then n else { n with map := n.map.insert addr none }

/-- The returned number is the value of the `std::error_code`, zero for success. -/
def bind (n : Net) (addr : Addr) (sock : SocketId) : Nat × Net :=
  let touched := n.touch addr
  match touched.resolve addr with
  | some _ => (EADDRNOTAVAIL, touched)
  | none => (0, { touched with map := touched.map.insert addr (some sock) })

def clear (n : Net) (addr : Addr) (s : SocketId) : Net :=
  match n.map.lookup addr with
  | none => n
  | some slot =>
    match n.lock slot with
    | some p => if p ≠ s then n else { n with map := n.map.erase addr }
    | none => { n with map := n.map.erase addr }

def get (n : Net) (addr : Addr) : Option SocketId × Net :=
  let touched := n.touch addr
  (touched.resolve addr, touched)

/-- The last shared pointer to a socket goes away. -/
def destroy (n : Net) (s : SocketId) : Net :=
  { n with destroyed := insert s n.destroyed }

end Net

inductive NetOp where
  | bind (addr : Addr) (sock : SocketId)
  | get (addr : Addr)
  | clear (addr : Addr) (s : SocketId)
  | destroy (s : SocketId)
  deriving DecidableEq

inductive NetReply where
  | code (value : Nat)
  | socket (s : Option SocketId)
  | done
  deriving DecidableEq

def step (n : Net) : NetOp → NetReply × Net
  | .bind addr sock => let (e, n') := n.bind addr sock; (.code e, n')
  | .get addr => let (s, n') := n.get addr; (.socket s, n')
  | .clear addr s => (.done, n.clear addr s)
  | .destroy s => (.done, n.destroy s)

/-- The caller of `bind` holds a shared pointer, so the socket exists. -/
def Held (n : Net) : NetOp → Prop
  | .bind _ sock => sock ∉ n.destroyed
  | _ => True

abbrev NetEvent := NetOp × NetReply

/-- One call by a caller that holds the socket it binds, with the reply it gets. -/
def NetStep (n : Net) (e : NetEvent) (n' : Net) : Prop :=
  Held n e.1 ∧ step n e.1 = (e.2, n')

/-- The event ends an ownership of `a` by `s`, or hands `a` to another socket. -/
def Ends (a : Addr) (s : SocketId) (e : NetEvent) : Prop :=
  (∃ t, e = (.bind a t, .code 0)) ∨ e.1 = .clear a s ∨ e.1 = .destroy s

/-- `s` made the last successful bind on `a`, still exists and was not cleared since. -/
def Owns (past : List NetEvent) (a : Addr) (s : SocketId) : Prop :=
  ∃ before after, past = before ++ (.bind a s, .code 0) :: after ∧
    ∀ e ∈ after, ¬Ends a s e

namespace Net

theorem resolve_touch (n : Net) (a b : Addr) : (n.touch a).resolve b = n.resolve b := by
  by_cases present : a ∈ n.map
  · rw [touch, if_pos present]
  · rw [touch, if_neg present]
    by_cases same : b = a
    · subst same
      have absent := Finmap.lookup_eq_none.mpr present
      simp only [resolve, lock, Finmap.lookup_insert, absent]
      rfl
    · simp only [resolve, lock, Finmap.lookup_insert_of_ne n.map same]

theorem destroyed_touch (n : Net) (a : Addr) : (n.touch a).destroyed = n.destroyed := by
  by_cases present : a ∈ n.map
  · rw [touch, if_pos present]
  · rw [touch, if_neg present]

/-- The observable effect of each call is its effect on what the slots resolve to. -/
theorem get_spec (n : Net) (a : Addr) :
    (n.get a).1 = n.resolve a ∧ (n.get a).2.resolve = n.resolve ∧
      (n.get a).2.destroyed = n.destroyed :=
  ⟨n.resolve_touch a a, funext (n.resolve_touch a), n.destroyed_touch a⟩

theorem bind_refused {n : Net} {a : Addr} {s p : SocketId} (owned : n.resolve a = some p) :
    (n.bind a s).1 = EADDRNOTAVAIL ∧ (n.bind a s).2.resolve = n.resolve ∧
      (n.bind a s).2.destroyed = n.destroyed := by
  have found := (n.resolve_touch a a).trans owned
  simp only [bind, found]
  exact ⟨trivial, funext (n.resolve_touch a), n.destroyed_touch a⟩

theorem bind_accepted {n : Net} {a : Addr} (s : SocketId) (free : n.resolve a = none) :
    (n.bind a s).1 = 0 ∧
      (n.bind a s).2.resolve = Function.update n.resolve a (n.lock (some s)) ∧
      (n.bind a s).2.destroyed = n.destroyed := by
  have found := (n.resolve_touch a a).trans free
  have gone := n.destroyed_touch a
  simp only [bind, found]
  refine ⟨trivial, ?_, gone⟩
  funext b
  by_cases same : b = a
  · subst same
    simp only [resolve, lock, Finmap.lookup_insert, gone, Function.update_self]
    rfl
  · rw [Function.update_of_ne same, ← n.resolve_touch a b]
    simp only [resolve, lock, Finmap.lookup_insert_of_ne _ same]

theorem resolve_erase (n : Net) (a : Addr) :
    (Net.mk (n.map.erase a) n.destroyed).resolve = Function.update n.resolve a none := by
  funext b
  by_cases same : b = a
  · subst same
    simp only [resolve, lock, Finmap.lookup_erase, Function.update_self]
    rfl
  · simp only [resolve, lock, Finmap.lookup_erase_ne same, Function.update_of_ne same]

/-- A clear releases the address if the slot resolves to `s`, and nothing otherwise. -/
theorem clear_spec (n : Net) (a : Addr) (s : SocketId) :
    (n.clear a s).resolve =
        (if n.resolve a = some s then Function.update n.resolve a none else n.resolve) ∧
      (n.clear a s).destroyed = n.destroyed := by
  cases found : n.map.lookup a with
  | none =>
    have unowned : n.resolve a = none := by rw [resolve, found]; rfl
    simp only [clear, found, unowned, reduceCtorEq, if_false, and_self]
  | some slot =>
    have here : n.resolve a = n.lock slot := by rw [resolve, found]; rfl
    cases locked : n.lock slot with
    | none =>
      have same : Function.update n.resolve a none = n.resolve := by
        rw [Function.update_eq_self_iff, here, locked]
      simp only [clear, found, locked, here, reduceCtorEq, if_false, and_true]
      exact (n.resolve_erase a).trans same
    | some p =>
      by_cases owner : p = s
      · simp only [clear, found, locked, here, owner, ne_eq, not_true_eq_false, if_false,
          if_true, and_true]
        exact n.resolve_erase a
      · simp only [clear, found, locked, here, owner, ne_eq, not_false_eq_true, if_true,
          Option.some.injEq, if_false, and_self]

theorem destroy_spec (n : Net) (s : SocketId) (a : Addr) :
    (n.destroy s).resolve a = (n.resolve a).filter (fun t => t ≠ s) := by
  simp only [resolve, lock, destroy]
  cases (n.map.lookup a).join with
  | none => rfl
  | some t =>
    by_cases gone : t ∈ n.destroyed
    · simp [Option.filter, gone]
    · by_cases same : t = s
      · subst same
        simp [Option.filter, gone]
      · simp [Option.filter, gone, same]

end Net

/-! ## One address on its own -/

/-- What a slot that locks to `r` locks to after a call, `gone` being destroyed before. -/
def slotAfter (gone : Finset SocketId) (b : Addr) (r : Option SocketId) :
    NetOp → Option SocketId
  | .bind a s => if a = b ∧ r = none ∧ s ∉ gone then some s else r
  | .get _ => r
  | .clear a s => if a = b ∧ r = some s then none else r
  | .destroy s => if r = some s then none else r

/-- The reply to a call that asks about an address whose slot locks to `r`. -/
def slotReply (r : Option SocketId) : NetOp → NetReply
  | .bind _ _ => .code (if r = none then 0 else EADDRNOTAVAIL)
  | .get _ => .socket r
  | _ => .done

def goneAfter (gone : Finset SocketId) : NetOp → Finset SocketId
  | .destroy s => insert s gone
  | _ => gone

def asks (b : Addr) : NetOp → Bool
  | .get a => a = b
  | .bind a _ => a = b
  | _ => false

theorem resolve_step (n : Net) (op : NetOp) (b : Addr) :
    (step n op).2.resolve b = slotAfter n.destroyed b (n.resolve b) op := by
  cases op with
  | get a => exact congrFun (n.get_spec a).2.1 b
  | bind a s =>
    change (n.bind a s).2.resolve b = _
    cases owned : n.resolve a with
    | some p =>
      have same := (Net.bind_refused (s := s) owned).2.1
      have busy : ¬(a = b ∧ n.resolve b = none ∧ s ∉ n.destroyed) := by
        rintro ⟨rfl, free, _⟩
        rw [owned] at free
        cases free
      rw [same, slotAfter, if_neg busy]
    | none =>
      have updated := (Net.bind_accepted s owned).2.1
      rw [updated]
      by_cases here : a = b
      · subst here
        by_cases gone : s ∈ n.destroyed <;> simp [slotAfter, owned, gone, Net.lock, Option.filter]
      · simp [Function.update_of_ne (Ne.symm here), slotAfter, here]
  | clear a s =>
    change (n.clear a s).resolve b = _
    rw [(n.clear_spec a s).1]
    by_cases here : a = b
    · subst here
      by_cases owner : n.resolve a = some s <;> simp [slotAfter, owner]
    · by_cases owner : n.resolve a = some s <;>
        simp [slotAfter, owner, here, Function.update_of_ne (Ne.symm here)]
  | destroy s =>
    change (n.destroy s).resolve b = _
    rw [Net.destroy_spec]
    cases n.resolve b with
    | none => rfl
    | some t => by_cases same : t = s <;> simp [slotAfter, Option.filter, same]

theorem destroyed_step (n : Net) (op : NetOp) :
    (step n op).2.destroyed = goneAfter n.destroyed op := by
  cases op with
  | get a => exact (n.get_spec a).2.2
  | bind a s =>
    cases owned : n.resolve a with
    | some p => exact (Net.bind_refused owned).2.2
    | none => exact (Net.bind_accepted s owned).2.2
  | clear a s => exact (n.clear_spec a s).2
  | destroy s => rfl

theorem reply_step {n : Net} {op : NetOp} {b : Addr} (asked : asks b op = true) :
    (step n op).1 = slotReply (n.resolve b) op := by
  cases op with
  | get a =>
    have here : a = b := of_decide_eq_true asked
    subst here
    exact congrArg NetReply.socket (n.get_spec a).1
  | bind a s =>
    have here : a = b := of_decide_eq_true asked
    subst here
    change NetReply.code (n.bind a s).1 = _
    cases owned : n.resolve a with
    | some p => rw [(Net.bind_refused owned).1]; rfl
    | none => rw [(Net.bind_accepted s owned).1]; rfl
  | clear a s => cases asked
  | destroy s => cases asked

theorem bind_code (n : Net) (a : Addr) (s : SocketId) :
    (n.bind a s).1 = 0 ↔ n.resolve a = none := by
  cases owned : n.resolve a with
  | some p =>
    rw [(Net.bind_refused owned).1]
    exact ⟨fun h => absurd h (by decide), fun h => by cases h⟩
  | none => exact ⟨fun _ => rfl, fun _ => (Net.bind_accepted s owned).1⟩

/-! ## The history's owner -/

theorem owns_nil (a : Addr) (s : SocketId) : ¬Owns [] a s := by
  rintro ⟨before, after, split, _⟩
  exact absurd split.symm (by simp)

/-- One more event either hands the address over or leaves an owner it does not end. -/
theorem owns_snoc (past : List NetEvent) (e : NetEvent) (a : Addr) (s : SocketId) :
    Owns (past ++ [e]) a s ↔
      e = (.bind a s, .code 0) ∨ (Owns past a s ∧ ¬Ends a s e) := by
  constructor
  · rintro ⟨before, after, split, quiet⟩
    rcases List.eq_nil_or_concat after with rfl | ⟨rest, last, rfl⟩
    · exact Or.inl (List.append_inj_right' split rfl |> List.singleton_inj.mp)
    · apply Or.inr
      rw [List.concat_eq_append] at split quiet
      have parts : past ++ [e] = (before ++ (.bind a s, .code 0) :: rest) ++ [last] := by
        rw [split, List.append_assoc, List.cons_append]
      obtain ⟨front, back⟩ := List.append_inj' parts rfl
      have same := List.singleton_inj.mp back
      refine ⟨⟨before, rest, front, ?_⟩, ?_⟩
      · intro x hx
        exact quiet x (List.mem_append_left _ hx)
      · rw [same]
        exact quiet last (List.mem_append_right _ (List.mem_singleton_self last))
  · rintro (rfl | ⟨⟨before, after, rfl, quiet⟩, more⟩)
    · exact ⟨past, [], rfl, by intro x hx; cases hx⟩
    · refine ⟨before, after ++ [e], by simp, ?_⟩
      intro x hx
      rcases List.mem_append.mp hx with old | new
      · exact quiet x old
      · rw [List.mem_singleton.mp new]
        exact more

/-- The slots resolve to the owners the history gives. -/
def Tracks (past : List NetEvent) (n : Net) : Prop :=
  ∀ a s, n.resolve a = some s ↔ Owns past a s

theorem tracks_empty : Tracks [] empty := by
  intro a s
  refine ⟨?_, fun owns => absurd owns (owns_nil a s)⟩
  intro found
  rw [Net.resolve, empty, Finmap.lookup_empty] at found
  cases found

/-- Every call keeps the slots and the history in agreement. -/
theorem tracks_step {past : List NetEvent} {n n' : Net} {e : NetEvent}
    (tracks : Tracks past n) (called : NetStep n e n') : Tracks (past ++ [e]) n' := by
  obtain ⟨op, reply⟩ := e
  obtain ⟨held, result⟩ := called
  intro a s
  have after := resolve_step n op a
  rw [result] at after
  rw [owns_snoc, ← tracks a s, after]
  cases op with
  | get b => simp [slotAfter, Ends]
  | bind b t =>
    have code : reply = .code (n.bind b t).1 := (congrArg Prod.fst result).symm
    have alive : t ∉ n.destroyed := held
    have succeeds := bind_code n b t
    by_cases here : b = a
    · subst here
      cases owned : n.resolve b with
      | none =>
        rw [code, succeeds.mpr owned]
        simp [slotAfter, alive, Ends]
      | some p =>
        have fails : (n.bind b t).1 ≠ 0 := by simp [succeeds, owned]
        simp [slotAfter, code, fails, Ends]
    · simp [slotAfter, here, Ends]
  | clear b t =>
    by_cases here : b = a
    · subst here
      by_cases owner : n.resolve b = some t
      · simp [slotAfter, owner, Ends]
      · have other : n.resolve b = some s → t ≠ s := by
          rintro found rfl
          exact owner found
        simp only [slotAfter, owner, and_false, if_false, Ends, Prod.mk.injEq, reduceCtorEq,
          false_and, exists_false, NetOp.clear.injEq, true_and, or_false, false_or]
        exact ⟨fun found => ⟨found, other found⟩, fun h => h.1⟩
    · simp [slotAfter, here, Ends]
  | destroy t =>
    by_cases owner : n.resolve a = some t
    · simp [slotAfter, owner, Ends]
    · have other : n.resolve a = some s → t ≠ s := by
        rintro found rfl
        exact owner found
      simp only [slotAfter, owner, if_false, Ends, Prod.mk.injEq, reduceCtorEq, false_and,
        exists_false, NetOp.destroy.injEq, false_or]
      exact ⟨fun found => ⟨found, other found⟩, fun h => h.1⟩

theorem tracks_path {past : List NetEvent} {n : Net} (path : Path NetStep empty past n) :
    Tracks past n :=
  history_invariant Tracks tracks_empty (fun _ _ _ _ => tracks_step) path

/-! ## Calls that leave an address alone -/

/-- The machine seen from one address: replies to its own lookups and binds only. -/
def stepAt (b : Addr) (n : Net) (op : NetOp) : Option NetReply × Net :=
  (if asks b op then some (step n op).1 else none, (step n op).2)

/-- The replies a continuation gets for one address. -/
def answers (b : Addr) (n : Net) (later : List NetOp) : List (Option NetReply) :=
  outputs (stepAt b) n later

/-- A lookup, a failed bind, a clear by a non-owner, or any call on another address. -/
def LeavesAlone (past : List NetEvent) (n : Net) (b : Addr) : NetOp → Prop
  | .get _ => True
  | .bind a s => a ≠ b ∨ (n.bind a s).1 ≠ 0
  | .clear a s => a ≠ b ∨ ¬Owns past a s
  | .destroy _ => False

/-- Two networks that look the same from one address. -/
structure SameAt (b : Addr) (n m : Net) : Prop where
  resolve : n.resolve b = m.resolve b
  destroyed : n.destroyed = m.destroyed

theorem sameAt_of_leavesAlone {past : List NetEvent} {n : Net} {b : Addr} {op : NetOp}
    (tracks : Tracks past n) (apart : LeavesAlone past n b op) :
    SameAt b (step n op).2 n := by
  constructor
  · rw [resolve_step]
    cases op with
    | get a => rfl
    | bind a s =>
      refine if_neg ?_
      rintro ⟨rfl, free, _⟩
      rcases apart with other | failed
      · exact other rfl
      · exact failed ((bind_code n a s).mpr free)
    | clear a s =>
      refine if_neg ?_
      rintro ⟨rfl, owner⟩
      rcases apart with other | stranger
      · exact other rfl
      · exact stranger ((tracks a s).mp owner)
    | destroy s => exact False.elim apart
  · rw [destroyed_step]
    cases op with
    | destroy s => exact False.elim apart
    | get a => rfl
    | bind a s => rfl
    | clear a s => rfl

/-- Calls keep two networks alike at an address and answer its callers alike. -/
theorem sameAt_step {b : Addr} {n m : Net} (same : SameAt b n m) (op : NetOp) :
    (stepAt b n op).1 = (stepAt b m op).1 ∧ SameAt b (stepAt b n op).2 (stepAt b m op).2 := by
  refine ⟨?_, ?_, ?_⟩
  · by_cases asked : asks b op = true
    · simp only [stepAt, if_pos asked, reply_step asked, same.resolve]
    · simp only [stepAt, if_neg asked]
  · change (step n op).2.resolve b = (step m op).2.resolve b
    rw [resolve_step, resolve_step, same.resolve, same.destroyed]
  · change (step n op).2.destroyed = (step m op).2.destroyed
    rw [destroyed_step, destroyed_step, same.destroyed]

theorem answers_eq_of_sameAt {b : Addr} {n m : Net} (same : SameAt b n m)
    (later : List NetOp) : answers b n later = answers b m later := by
  have admitted : ∀ (k : Net) (ops : List NetOp),
      Along (stepAt b) (fun _ _ => True) k ops := by
    intro k ops
    induction ops generalizing k with
    | nil => trivial
    | cons op rest ih => exact ⟨trivial, ih _⟩
  exact (simulation (SameAt b) (fun _ _ op h _ => sameAt_step h op) same (admitted n later)).1

/-- Ownership is exclusive and stable. In every reachable state a lookup finds exactly
the owner the history gives and a bind succeeds exactly when there is none; a call that
leaves an address alone changes no later answer about it. -/
theorem ownership_exclusive_stable {past : List NetEvent} {n : Net}
    (path : Path NetStep empty past n) :
    (∀ a s, (n.get a).1 = some s ↔ Owns past a s) ∧
      (∀ a s, (n.bind a s).1 = 0 ↔ ¬∃ t, Owns past a t) ∧
      (∀ b op later, LeavesAlone past n b op →
        answers b (step n op).2 later = answers b n later) := by
  have tracks := tracks_path path
  refine ⟨?_, ?_, ?_⟩
  · intro a s
    rw [(n.get_spec a).1]
    exact tracks a s
  · intro a s
    rw [bind_code, Option.eq_none_iff_forall_ne_some]
    constructor
    · rintro unowned ⟨t, owns⟩
      exact unowned t ((tracks a t).mpr owns)
    · intro unowned t found
      exact unowned ⟨t, (tracks a t).mp found⟩
  · intro b op later apart
    exact answers_eq_of_sameAt (sameAt_of_leavesAlone tracks apart) later

/-- Two sockets contend for one address; the second gets it once the first is gone. -/
theorem ownership_after_destroy :
    ∃ n : Net, (n.get default).1 = some 2 ∧ (n.bind default 3).1 ≠ 0 := by
  have first : NetStep empty (.bind default 1, .code 0) (empty.bind default 1).2 :=
    ⟨show 1 ∉ empty.destroyed by decide, rfl⟩
  have refused : NetStep _ (.bind default 2, .code EADDRNOTAVAIL)
      ((empty.bind default 1).2.bind default 2).2 :=
    ⟨show 2 ∉ (empty.bind default 1).2.destroyed by decide, rfl⟩
  have gone : NetStep _ (.destroy 1, .done)
      (((empty.bind default 1).2.bind default 2).2.destroy 1) := ⟨trivial, rfl⟩
  have second : NetStep _ (.bind default 2, .code 0)
      ((((empty.bind default 1).2.bind default 2).2.destroy 1).bind default 2).2 :=
    ⟨show 2 ∉ (((empty.bind default 1).2.bind default 2).2.destroy 1).destroyed by decide, rfl⟩
  have laws := ownership_exclusive_stable
    ((((Path.start.snoc first).snoc refused).snoc gone).snoc second)
  have owns : Owns [(.bind default 1, .code 0), (.bind default 2, .code EADDRNOTAVAIL),
      (.destroy 1, .done), (.bind default 2, .code 0)] default 2 :=
    ⟨[(.bind default 1, .code 0), (.bind default 2, .code EADDRNOTAVAIL), (.destroy 1, .done)],
      [], rfl, by intro e member; cases member⟩
  refine ⟨_, (laws.1 default 2).mpr owns, ?_⟩
  intro bound
  exact (laws.2.1 default 3).mp bound ⟨2, owns⟩

end Network
