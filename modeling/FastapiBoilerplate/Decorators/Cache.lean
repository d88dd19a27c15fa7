import Mathlib.Data.Rat.Defs
import FastapiBoilerplate.Lib.Lists
import FastapiBoilerplate.Lib.Run
import FastapiBoilerplate.Lib.Text

/-!
# The TTL cache in front of a function

`make_key`, `_TTLStore` and `CachedFunction` of `src/decorators/cache.py`. What a lookup compares
are Python objects, so values are of any type with a relation *identical or equal*, under which
`1`, `1.0` and `True` are one. The key is the call's shape up to that relation
(`sameKey_makeKey`), and a hit answers for every call of the shape.

A call is two steps, the lookup and, after a miss, the function's return: in between the function
may call itself and other threads may call. Floats are rationals, and the clock may say anything.
-/

namespace Decorators

open Lib List

/-- What the key builder and the dictionary need of Python's objects: whether two are identical or
    equal, the mark between positional and keyword arguments, and the pair of a name and a value. -/
structure Py (ν : Type) where
  same : ν → ν → Bool
  kwdMark : ν
  item : Text → ν → ν

/-- The arguments of a call. The keyword arguments are a mapping, given by its items in the order
    of their names. -/
structure Call (ν : Type) where
  args : List ν
  kwargs : List (Text × ν) := []
  sorted : kwargs.Pairwise (·.1 < ·.1) := by simp

/-- `_Entry`, with its key. -/
structure Entry (ν ρ : Type) where
  key : List ν
  value : ρ
  expiresAt : ℚ

variable {ν ρ ε : Type} (py : Py ν)

/-- `make_key`, of hashable arguments. -/
def makeKey (call : Call ν) : List ν :=
  if call.kwargs = [] then call.args
  else call.args ++ py.kwdMark :: call.kwargs.map fun (name, value) => py.item name value

/-- How the dictionary compares two keys. -/
def Py.sameKey (key key' : List ν) : Bool :=
  key.length = key'.length ∧ (key.zip key').all fun (x, y) => py.same x y

/-- `_TTLStore`: the entries of the `OrderedDict`, the oldest first. -/
abbrev Store (ν ρ : Type) := List (Entry ν ρ)

/-- `peek`. -/
def Store.peek (store : Store ν ρ) (key : List ν) (now : ℚ) : Store ν ρ × Option ρ :=
  let found (e : Entry ν ρ) := py.sameKey e.key key
  match store.find? found with
  | none => (store, none)
  | some entry =>
    if entry.expiresAt ≤ now then (store.eraseP found, none)
    else (store.eraseP found ++ [entry], some entry.value)

/-- `set`. A key that is there stays the object it was. -/
def Store.set (maxsize : ℕ) (ttl : ℚ) (store : Store ν ρ) (key : List ν) (value : ρ) (now : ℚ) :
    Store ν ρ :=
  let found (e : Entry ν ρ) := py.sameKey e.key key
  match store.find? found with
  | none =>
    (if maxsize ≤ store.length then store.tail else store) ++ [⟨key, value, now + ttl⟩]
  | some entry => store.eraseP found ++ [⟨entry.key, value, now + ttl⟩]

/-- The cache, the calls that are in the function, and what the calls have been answered. -/
structure Sys (ν ρ ε : Type) where
  store : Store ν ρ := []
  computing : List (Call ν) := []
  answers : List (Call ν × Except ε ρ) := []

inductive Action (ν : Type)
  | call (call : Call ν) (now : ℚ)
  | finish (i : ℕ) (now : ℚ)

variable (f : Call ν → Except ε ρ) (maxsize : ℕ) (ttl : ℚ)

/-- `CachedFunction.__call__`. -/
def Sys.step (s : Sys ν ρ ε) : Action ν → Option (Sys ν ρ ε)
  | .call call now =>
    match s.store.peek py (makeKey py call) now with
    | (store, some value) => some { s with store, answers := s.answers ++ [(call, .ok value)] }
    | (store, none) => some { s with store, computing := s.computing ++ [call] }
  | .finish i now =>
    s.computing[i]?.map fun call =>
      { store := match f call with
          | .ok value => s.store.set py maxsize ttl (makeKey py call) value now
          | .error _ => s.store
        computing := s.computing.eraseIdx i
        answers := s.answers ++ [(call, f call)] }

/-- The calls are among these. -/
def Among (calls : Set (Call ν)) (_ : Sys ν ρ ε) : Action ν → Prop
  | .call call _ => call ∈ calls
  | .finish _ _ => True

/-- However it is called with these arguments, a cached function answers as the function does. -/
def Transparent (calls : Set (Call ν)) : Prop :=
  ∀ (ρ ε : Type) (f : Call ν → Except ε ρ) (maxsize : ℕ) (ttl : ℚ) (s : Sys ν ρ ε),
    Run (Sys.step py f maxsize ttl) (Among calls) {} s →
      ∀ answer ∈ s.answers, answer.2 = f answer.1

variable {py f maxsize ttl}

/-! ## When two keys are the same -/

theorem sameKey_iff {key key' : List ν} :
    py.sameKey key key' = true ↔ Forall₂ (py.same · · = true) key key' := by
  simp [Py.sameKey, forall₂_iff_zip]

/-- Two lists are related part by part if what begins their second parts is related to nothing in
    the first. -/
theorem forall₂_append_iff {R : ν → ν → Prop} {xs ys zs ws : List ν}
    (hxs : ∀ x ∈ xs, ∀ m ∈ ws.head?, ¬ R x m) (hys : ∀ y ∈ ys, ∀ m ∈ zs.head?, ¬ R m y) :
    Forall₂ R (xs ++ zs) (ys ++ ws) ↔ Forall₂ R xs ys ∧ Forall₂ R zs ws := by
  induction xs generalizing ys with
  | nil =>
    cases ys with
    | nil => simp
    | cons => cases zs <;> simp_all
  | cons x xs ih =>
    cases ys with
    | nil => cases ws <;> simp_all
    | cons y ys =>
      have hrest := ih (fun x hx => hxs x (mem_cons_of_mem _ hx))
        (fun y hy => hys y (mem_cons_of_mem _ hy))
      simp [hrest, and_assoc]

/-- The keys of two calls are the same if the positional arguments are, one by one, and the keyword
    arguments, by name: the mark is the same as no argument, and an item is its name and value. -/
theorem sameKey_makeKey {a b : Call ν} (hself : py.same py.kwdMark py.kwdMark = true)
    (hmark : ∀ x ∈ a.args ++ b.args, ¬ py.same x py.kwdMark ∧ ¬ py.same py.kwdMark x)
    (hitem : ∀ m x n y, py.same (py.item m x) (py.item n y) = true ↔ m = n ∧ py.same x y = true) :
    py.sameKey (makeKey py a) (makeKey py b) = true ↔
      Forall₂ (py.same · · = true) a.args b.args ∧
        Forall₂ (fun i j => i.1 = j.1 ∧ py.same i.2 j.2 = true) a.kwargs b.kwargs := by
  let marked (call : Call ν) : List ν :=
    if call.kwargs = [] then []
    else py.kwdMark :: call.kwargs.map fun (name, value) => py.item name value
  have hkey (call : Call ν) : makeKey py call = call.args ++ marked call := by
    unfold makeKey marked
    split <;> simp
  have hhead {call : Call ν} {m : ν} (hm : m ∈ (marked call).head?) : m = py.kwdMark := by
    unfold marked at hm
    split at hm <;> cases hm
    rfl
  rw [sameKey_iff, hkey, hkey, forall₂_append_iff]
  · apply and_congr_right'
    unfold marked
    cases a.kwargs <;> cases b.kwargs <;>
      simp [hself, hitem, forall₂_map_left_iff, forall₂_map_right_iff]
  · rintro x hx m hm
    exact hhead hm ▸ (hmark x (mem_append_left _ hx)).1
  · rintro y hy m hm
    exact hhead hm ▸ (hmark y (mem_append_right _ hy)).2

/-! ## What the store holds -/

/-- The entry answers for one of the calls. -/
def Entry.For (py : Py ν) (f : Call ν → Except ε ρ) (calls : Set (Call ν)) (e : Entry ν ρ) :
    Prop :=
  ∃ call ∈ calls, e.key = makeKey py call ∧ f call = .ok e.value

variable {calls : Set (Call ν)} {store store' : Store ν ρ} {call : Call ν} {value : ρ} {now : ℚ}

theorem of_mem_eraseP {P : Entry ν ρ → Prop} (h : ∀ e ∈ store, P e) (p : Entry ν ρ → Bool) :
    ∀ e ∈ store.eraseP p, P e :=
  fun e he => h e (mem_of_mem_eraseP he)

theorem Store.for_peek {key : List ν} {found : Option ρ} (h : ∀ e ∈ store, e.For py f calls)
    (hpeek : store.peek py key now = (store', found)) :
    (∀ e ∈ store', e.For py f calls) ∧ ∀ value, found = some value →
      ∃ e : Entry ν ρ, e.For py f calls ∧ py.sameKey e.key key = true ∧ e.value = value := by
  unfold Store.peek at hpeek
  dsimp only at hpeek
  split at hpeek
  · cases hpeek
    exact ⟨h, nofun⟩
  rename_i entry hfind
  have hentry := h entry (mem_of_find?_eq_some hfind)
  split at hpeek <;> cases hpeek
  · exact ⟨of_mem_eraseP h _, nofun⟩
  refine ⟨forall_mem_snoc (of_mem_eraseP h _) hentry, ?_⟩
  rintro _ ⟨⟩
  exact ⟨entry, hentry, by simpa using find?_some hfind, rfl⟩

/-- Calls that share a key share their arguments. -/
def Apart (py : Py ν) (calls : Set (Call ν)) : Prop :=
  ∀ a ∈ calls, ∀ b ∈ calls, py.sameKey (makeKey py a) (makeKey py b) = true → a = b

theorem Store.for_set (hapart : Apart py calls) (h : ∀ e ∈ store, e.For py f calls)
    (hcall : call ∈ calls) (hvalue : f call = .ok value) :
    ∀ e ∈ store.set py maxsize ttl (makeKey py call) value now, e.For py f calls := by
  unfold Store.set
  dsimp only
  split
  · refine forall_mem_snoc ?_ ⟨call, hcall, rfl, hvalue⟩
    split
    · exact fun e he => h e (mem_of_mem_tail he)
    · exact h
  · rename_i entry hfind
    obtain ⟨other, hother, hkey, -⟩ := h entry (mem_of_find?_eq_some hfind)
    have hsame : py.sameKey entry.key (makeKey py call) = true := by
      simpa using find?_some hfind
    obtain rfl := hapart other hother call hcall (hkey ▸ hsame)
    exact forall_mem_snoc (of_mem_eraseP h _) ⟨other, hcall, hkey, hvalue⟩

structure Inv (py : Py ν) (f : Call ν → Except ε ρ) (calls : Set (Call ν)) (s : Sys ν ρ ε) :
    Prop where
  store : ∀ e ∈ s.store, e.For py f calls
  computing : ∀ call ∈ s.computing, call ∈ calls
  answers : ∀ answer ∈ s.answers, answer.2 = f answer.1

theorem Inv.step (hapart : Apart py calls) {s s' : Sys ν ρ ε} {a : Action ν} (h : Inv py f calls s)
    (hamong : Among calls s a) (hstep : s.step py f maxsize ttl a = some s') :
    Inv py f calls s' := by
  cases a with simp only [Sys.step] at hstep
  | call call =>
    split at hstep <;> cases hstep <;> rename_i hpeek
    · obtain ⟨hstore, hfound⟩ := Store.for_peek h.store hpeek
      refine ⟨hstore, h.computing, forall_mem_snoc h.answers ?_⟩
      obtain ⟨e, ⟨other, hother, hkey, hvalue⟩, hsame, rfl⟩ := hfound _ rfl
      obtain rfl := hapart other hother call hamong (hkey ▸ hsame)
      exact hvalue.symm
    · exact ⟨(Store.for_peek h.store hpeek).1, forall_mem_snoc h.computing hamong, h.answers⟩
  | finish =>
    obtain ⟨call, hcall, rfl⟩ := Option.map_eq_some_iff.mp hstep
    have hmem := h.computing call (mem_of_getElem? hcall)
    refine ⟨?_, fun c hc => h.computing c (mem_of_mem_eraseIdx hc),
      forall_mem_snoc h.answers rfl⟩
    dsimp only
    split
    · exact Store.for_set hapart h.store hmem ‹_›
    · exact h.store

/-- **A cached function answers as the function does exactly for calls that the key builder tells
    apart.** Among calls of which no two have equal keys and different arguments, whatever the
    function, the TTL, the size, the clock and the order of the calls; and if two have, already
    the second of them may be answered for the first. -/
theorem transparent_iff_apart (py : Py ν) (calls : Set (Call ν)) :
    Transparent py calls ↔ Apart py calls := by
  constructor
  · intro h a ha b hb hsame
    -- the function that returns its arguments, called with `a` and then with `b`
    have hrun : Run (Sys.step py (.ok : Call ν → Except Empty (Call ν)) 1 1) (Among calls) {}
        ⟨[⟨makeKey py a, a, 1⟩], [], [(a, .ok a), (b, .ok a)]⟩ := by
      refine .snoc (a := .call b 0) (.snoc (a := .finish 0 0)
        (.single (a := .call a 0) ha rfl) trivial rfl) hb ?_
      have hlive : ¬ (1 : ℚ) ≤ 0 := by decide +kernel
      simp [Sys.step, Store.peek, Store.set, hsame, hlive]
    exact Except.ok.inj (h _ _ _ _ _ _ hrun (b, .ok a) (by simp))
  · intro hapart ρ ε f maxsize ttl s hrun
    have hinv : Inv py f calls s :=
      hrun.invariant (fun h hamong hstep => h.step hapart hamong hstep) ⟨nofun, nofun, nofun⟩
    exact hinv.answers

/-! ## One and true -/

/-- Integers and truth values, as Python compares them. -/
inductive Value
  | int (n : ℤ)
  | bool (b : Bool)
  | kwdMark
  | item (name : Text) (value : Value)
  deriving DecidableEq

def Value.same : Value → Value → Bool
  | .int n, .bool b | .bool b, .int n => n = b.toInt
  | .item name x, .item name' y => name = name' && x.same y
  | x, y => x = y

/-- `f(1)` and then `f(True)`: the second call is answered with what the function returns for
    `1`. -/
theorem true_is_answered_for_one :
    ∃ s, Run (Sys.step ⟨Value.same, .kwdMark, .item⟩
        (fun call => (.ok call.args : Except Empty (List Value))) 128 60) Always {} s ∧
      s.answers.map (fun (call, answer) => (call.args, answer.toOption)) =
        [([.int 1], some [.int 1]), ([.bool true], some [.int 1])] := by
  refine Run.exists_of_replay [.call { args := [.int 1] } 0, .finish 0 0,
    .call { args := [.bool true] } 1] ?_
  decide +kernel

end Decorators
