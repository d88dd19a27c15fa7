import Mathlib.Order.Lattice
import FastapiBoilerplate.Lib.Lists

/-!
# Leases with fencing tokens

What a lease store tells its callers, as a list of events: it granted a lease, renewed one, took
one back, dropped them all. Which grants stand after such a list, and until when, can be read
off the list alone (`standing`); nothing here knows how the store keeps them.

A list is `Lawful` when every event was allowed in view of the ones before it: a grant only of a
name on which nothing is live, under a token above all earlier ones of the name; a renewal and a
take-back only of a lease that is live. Two things follow for any store that keeps to it: at most
one lease of a name is live at a time (`Lawful.live_unique`), and a lease that could be taken
back has been live all along, with nobody else granted the name since (`Lawful.exclusive`).
-/

namespace Lib.Fencing

open List

universe u v

structure Grant (κ : Type u) (τ : Type v) where
  name : κ
  token : ℤ
  expires : τ

inductive Act (κ : Type u) (τ : Type v)
  | grant (g : Grant κ τ)
  | renew (g : Grant κ τ)
  | takeBack (name : κ) (token : ℤ)
  | dropAll
  | nothing

structure Event (κ : Type u) (τ : Type v) where
  time : τ
  act : Act κ τ

variable {κ : Type u} {τ : Type v}

def Act.granted : Act κ τ → Option (Grant κ τ)
  | .grant g => some g
  | _ => none

/-- The grants of a list of events, in order. -/
def granted (es : List (Event κ τ)) : List (Grant κ τ) := es.filterMap fun e => e.act.granted

theorem granted_snoc (es : List (Event κ τ)) (e : Event κ τ) :
    granted (es ++ [e]) = granted es ++ e.act.granted.toList := by
  unfold granted
  rw [filterMap_append]
  cases h : e.act.granted <;> simp [h]

variable [DecidableEq κ]

/-- What an event does to the grants that stand. A renewal leaves the name and the token. -/
def settle (gs : List (Grant κ τ)) : Act κ τ → List (Grant κ τ)
  | .grant g => gs ++ [g]
  | .renew g => gs.map fun x => if x.name = g.name ∧ x.token = g.token then g else x
  | .takeBack name token => gs.filter fun x => ¬ (x.name = name ∧ x.token = token)
  | .dropAll => []
  | .nothing => gs

/-- The grants neither taken back nor dropped, each as its last renewal left it. -/
def standing (es : List (Event κ τ)) : List (Grant κ τ) :=
  es.foldl (fun gs e => settle gs e.act) []

theorem standing_snoc (es : List (Event κ τ)) (e : Event κ τ) :
    standing (es ++ [e]) = settle (standing es) e.act := by
  rw [standing, foldl_append]
  rfl

variable {g x : Grant κ τ} {now : τ} {es : List (Event κ τ)}

/-- What stands after an event stood before, or is what the event granted or renewed. -/
theorem mem_settle {gs : List (Grant κ τ)} {act : Act κ τ} (h : x ∈ settle gs act) :
    x ∈ gs ∨ act = .grant x ∨
      act = .renew x ∧ ∃ y ∈ gs, y.name = x.name ∧ y.token = x.token := by
  cases act with
  | grant =>
    rcases mem_snoc.mp h with h | rfl
    · exact .inl h
    · exact .inr (.inl rfl)
  | renew =>
    obtain ⟨y, hy, rfl⟩ := mem_map.mp h
    split
    · exact .inr (.inr ⟨rfl, y, hy, ‹_›⟩)
    · exact .inl hy
  | takeBack => exact .inl (mem_of_mem_filter h)
  | dropAll => cases h
  | nothing => exact .inl h

theorem exists_granted (h : x ∈ standing es) :
    ∃ g ∈ granted es, g.name = x.name ∧ g.token = x.token := by
  induction es using List.reverseRecOn generalizing x with
  | nil => cases h
  | append_singleton es e ih =>
    rw [standing_snoc] at h
    rw [granted_snoc]
    have hold {y : Grant κ τ} (hy : y ∈ standing es) (hname : y.name = x.name)
        (htoken : y.token = x.token) : ∃ g ∈ granted es ++ e.act.granted.toList,
          g.name = x.name ∧ g.token = x.token := by
      obtain ⟨g, hg, hgname, hgtoken⟩ := ih hy
      exact ⟨g, mem_append_left _ hg, hgname.trans hname, hgtoken.trans htoken⟩
    rcases mem_settle h with h | hact | ⟨-, y, hy, hname, htoken⟩
    · exact hold h rfl rfl
    · exact ⟨x, mem_append_right _ (by simp [hact, Act.granted]), rfl, rfl⟩
    · exact hold hy hname htoken

variable [LinearOrder τ]

/-- The lease `token` of `name` stands and has not run out. -/
def Live (es : List (Event κ τ)) (name : κ) (token : ℤ) (now : τ) : Prop :=
  ∃ x ∈ standing es, x.name = name ∧ x.token = token ∧ now < x.expires

/-- What a store may answer after `es`. -/
structure Allowed (es : List (Event κ τ)) (e : Event κ τ) : Prop where
  time : ∀ e' ∈ es, e'.time ≤ e.time
  free : ∀ g, e.act = .grant g → ∀ x ∈ standing es, x.name = g.name → x.expires ≤ e.time
  fresh : ∀ g, e.act = .grant g → ∀ x ∈ granted es, x.name = g.name → x.token < g.token
  renewed : ∀ g, e.act = .renew g → Live es g.name g.token e.time
  takenBack : ∀ name token, e.act = .takeBack name token → Live es name token e.time

theorem Allowed.nothing {t : τ} (time : ∀ e' ∈ es, e'.time ≤ t) : Allowed es ⟨t, .nothing⟩ where
  time := time
  free _ h := by cases h
  fresh _ h := by cases h
  renewed _ h := by cases h
  takenBack _ _ h := by cases h

inductive Lawful : List (Event κ τ) → Prop
  | nil : Lawful []
  | snoc {es : List (Event κ τ)} {e : Event κ τ} (before : Lawful es) (allowed : Allowed es e) :
      Lawful (es ++ [e])

variable {es fs : List (Event κ τ)} {e : Event κ τ} {name : κ} {token : ℤ}

theorem Lawful.of_snoc (h : Lawful (es ++ [e])) : Lawful es ∧ Allowed es e := by
  generalize hall : es ++ [e] = all at h
  cases h with
  | nil => simp at hall
  | snoc before allowed =>
    obtain ⟨rfl, hlast⟩ := append_inj' hall rfl
    obtain rfl := singleton_inj.mp hlast
    exact ⟨before, allowed⟩

theorem Lawful.of_append (h : Lawful (es ++ fs)) : Lawful es := by
  induction fs using List.reverseRecOn with
  | nil => simpa using h
  | append_singleton fs e ih =>
    rw [← append_assoc] at h
    exact ih h.of_snoc.1

theorem Lawful.allowed (h : Lawful (es ++ e :: fs)) : Allowed es e := by
  have h' : Lawful ((es ++ [e]) ++ fs) := by simpa using h
  exact h'.of_append.of_snoc.2

theorem Lawful.take (h : Lawful es) (i : ℕ) : Lawful (es.take i) := by
  rw [← take_append_drop i es] at h
  exact h.of_append

theorem Lawful.allowed_take (h : Lawful es) {i : ℕ} (hi : es[i]? = some e) :
    Allowed (es.take i) e := by
  obtain ⟨hlt, rfl⟩ := List.getElem?_eq_some_iff.mp hi
  have hsplit : Lawful (es.take i ++ es[i] :: es.drop (i + 1)) := by
    rwa [← drop_eq_getElem_cons, take_append_drop]
  exact hsplit.allowed

/-! ## Tokens increase -/

/-- **The tokens of a name increase** from each grant to every later one. -/
theorem Lawful.tokens (h : Lawful es) :
    (granted es).Pairwise fun g g' => g.name = g'.name → g.token < g'.token := by
  induction h with
  | nil => exact .nil
  | @snoc es e before allowed ih =>
    rw [granted_snoc]
    cases hact : e.act with
    | grant =>
      exact pairwise_snoc ih (allowed.fresh _ hact)
    | _ => simpa [Act.granted] using ih

/-! ## One live lease -/

omit [DecidableEq κ] [LinearOrder τ] in
theorem eq_of_token {gs : List (Grant κ τ)} {y : Grant κ τ}
    (h : gs.Pairwise fun x y => x.name = y.name → x.token < y.token) (hx : x ∈ gs) (hy : y ∈ gs)
    (hname : x.name = y.name) (htoken : x.token = y.token) : x = y := by
  have hne : gs.Pairwise fun x y => ¬ (x.name = y.name ∧ x.token = y.token) :=
    h.imp fun hlt ⟨hname, htoken⟩ => absurd htoken (Int.ne_of_lt (hlt hname))
  have : Std.Symm fun x y : Grant κ τ => ¬ (x.name = y.name ∧ x.token = y.token) :=
    ⟨fun _ _ h ⟨hname, htoken⟩ => h ⟨hname.symm, htoken.symm⟩⟩
  by_contra hxy
  exact hne.forall hx hy hxy ⟨hname, htoken⟩

/-- Of two standing grants of one name the earlier has the lower token, and has run out. -/
theorem Lawful.standing_pairwise (h : Lawful es) :
    (standing es).Pairwise fun x y => x.name = y.name →
      x.token < y.token ∧ ∀ now, (∀ e ∈ es, e.time ≤ now) → x.expires ≤ now := by
  induction h with
  | nil => exact .nil
  | @snoc es e before allowed ih =>
    rw [standing_snoc]
    have hmono : ∀ {now : τ}, (∀ e' ∈ es ++ [e], e'.time ≤ now) → ∀ e' ∈ es, e'.time ≤ now :=
      fun hnow e' he' => hnow e' (mem_append_left _ he')
    have hlast : ∀ e' ∈ es ++ [e], e'.time ≤ e.time := forall_mem_snoc allowed.time (le_refl _)
    have hkept : (standing es).Pairwise fun x y => x.name = y.name →
        x.token < y.token ∧ ∀ now, (∀ e' ∈ es ++ [e], e'.time ≤ now) → x.expires ≤ now :=
      ih.imp fun hxy hname => ⟨(hxy hname).1, fun now hnow => (hxy hname).2 now (hmono hnow)⟩
    cases hact : e.act with
    | grant g =>
      refine pairwise_snoc hkept fun x hx hname => ?_
      obtain ⟨g, hg, hgx, htoken⟩ := exists_granted hx
      refine ⟨htoken ▸ allowed.fresh _ hact g hg (hgx.trans hname), fun now hnow => ?_⟩
      apply le_trans (allowed.free _ hact x hx hname)
      exact hnow e mem_concat_self
    | renew g =>
      refine pairwise_map.mpr (List.Pairwise.imp_of_mem ?_ hkept)
      intro x y hx _ hxy hname
      have hname' : x.name = y.name := by
        split at hname <;> split at hname <;> simp_all
      obtain ⟨htoken, hout⟩ := hxy hname'
      -- the earlier of the two is not the one renewed: it has run out
      have hother : ¬ (x.name = g.name ∧ x.token = g.token) := by
        intro ⟨hxn, hxt⟩
        obtain ⟨z, hz, hzn, hzt, hlive⟩ := allowed.renewed g hact
        have hzx : z = x := eq_of_token (ih.imp fun h hname => (h hname).1) hz hx
          (hzn.trans hxn.symm) (hzt.trans hxt.symm)
        exact absurd (hout e.time hlast) (not_le.mpr (hzx ▸ hlive))
      rw [if_neg hother]
      split
      · rename_i hyg
        exact ⟨hyg.2 ▸ htoken, hout⟩
      · exact ⟨htoken, hout⟩
    | takeBack => exact hkept.filter _
    | dropAll => exact .nil
    | nothing => exact hkept

/-- **At most one lease of a name is live**, from the last event on. -/
theorem Lawful.live_unique (h : Lawful es) (name : κ) (hnow : ∀ e ∈ es, e.time ≤ now) :
    ((standing es).filter fun x => x.name = name ∧ now < x.expires).length ≤ 1 := by
  have hout : ((standing es).filter fun x => x.name = name ∧ now < x.expires).Pairwise
      fun _ _ => False := by
    refine List.Pairwise.imp_of_mem ?_ (h.standing_pairwise.filter _)
    intro x y hx hy hxy
    have hx' := of_decide_eq_true (mem_filter.mp hx).2
    have hy' := of_decide_eq_true (mem_filter.mp hy).2
    exact absurd ((hxy (hx'.1.trans hy'.1.symm)).2 now hnow) (not_le.mpr hx'.2)
  generalize (standing es).filter (fun x => decide (x.name = name ∧ now < x.expires)) = gs at hout
  match gs with
  | [] => exact Nat.zero_le _
  | [_] => exact Nat.le_refl 1
  | _ :: _ :: _ => exact absurd (rel_of_pairwise_cons hout mem_cons_self) id

/-! ## What could be taken back was never lost -/

/-- A lease that is not live when the next event comes is not live after it. -/
theorem Lawful.not_live_snoc (h : Lawful (es ++ [e])) (hg : g ∈ granted es)
    (hdead : ¬ Live es g.name g.token e.time) (hnow : e.time ≤ now) :
    ¬ Live (es ++ [e]) g.name g.token now := by
  obtain ⟨-, allowed⟩ := h.of_snoc
  rintro ⟨x, hx, hname, htoken, hlive⟩
  rw [standing_snoc] at hx
  rcases mem_settle hx with hx | hact | ⟨hact, -⟩
  · exact hdead ⟨x, hx, hname, htoken, lt_of_le_of_lt hnow hlive⟩
  · exact absurd htoken.symm (Int.ne_of_lt (allowed.fresh _ hact g hg hname.symm))
  · exact hdead (hname ▸ htoken ▸ allowed.renewed x hact)

omit [DecidableEq κ] [LinearOrder τ] in
theorem mem_granted_append (hg : g ∈ granted es) (fs : List (Event κ τ)) :
    g ∈ granted (es ++ fs) := by
  unfold granted
  rw [filterMap_append]
  exact mem_append_left _ hg

/-- A lease that is live after more events was live when the first of them came. -/
theorem Lawful.live_of_append (h : Lawful (es ++ e :: fs)) (hg : g ∈ granted es)
    (hnow : ∀ e' ∈ e :: fs, e'.time ≤ now) (hlive : Live (es ++ e :: fs) g.name g.token now) :
    Live es g.name g.token e.time := by
  induction fs using List.reverseRecOn generalizing now with
  | nil =>
    by_contra hdead
    exact h.not_live_snoc hg hdead (hnow e mem_cons_self) hlive
  | append_singleton fs f ih =>
    have hassoc : es ++ e :: (fs ++ [f]) = (es ++ e :: fs) ++ [f] := by simp
    rw [hassoc] at h hlive
    obtain ⟨before, allowed⟩ := h.of_snoc
    have hlast : Live (es ++ e :: fs) g.name g.token f.time := by
      by_contra hdead
      have hf : f.time ≤ now := hnow f (by simp)
      exact h.not_live_snoc (mem_granted_append hg _) hdead hf hlive
    exact ih before (fun e' he' => allowed.time e' (mem_append_right _ he')) hlast

/-- A lease that is live when the event at `r` comes was live when any event before it came, back
    to its grant. -/
theorem Lawful.live_take (h : Lawful es) {i r : ℕ} {e f : Event κ τ} (hg : g ∈ granted (es.take i))
    (hi : es[i]? = some e) (hr : es[r]? = some f) (hir : i ≤ r)
    (hlive : Live (es.take r) g.name g.token f.time) : Live (es.take i) g.name g.token e.time := by
  rcases Nat.eq_or_lt_of_le hir with rfl | hlt
  · rw [hi] at hr
    cases hr
    exact hlive
  · obtain ⟨mid, hsplit⟩ := take_split hi hlt
    have hbefore := h.take r
    have htime := (h.allowed_take hr).time
    rw [hsplit] at hbefore hlive htime
    exact hbefore.live_of_append hg (fun e' he' => htime e' (mem_append_right _ he')) hlive

/-- **A lease that could be taken back was live all along**, and its name went to nobody else
    since it was granted. -/
theorem Lawful.exclusive {t t' : τ} {mid : List (Event κ τ)}
    (h : Lawful ((es ++ ⟨t, .grant g⟩ :: mid) ++ [⟨t', .takeBack g.name g.token⟩])) :
    (∀ mid₁ f mid₂, mid ++ [⟨t', .takeBack g.name g.token⟩] = mid₁ ++ f :: mid₂ →
      Live (es ++ ⟨t, .grant g⟩ :: mid₁) g.name g.token f.time) ∧
    ∀ f ∈ mid, ∀ g', f.act = .grant g' → g'.name ≠ g.name := by
  have hassoc (fs fs' : List (Event κ τ)) : es ++ ⟨t, .grant g⟩ :: (fs ++ fs') =
      (es ++ ⟨t, .grant g⟩ :: fs) ++ fs' := by simp
  have hgranted : ∀ fs, g ∈ granted (es ++ ⟨t, .grant g⟩ :: fs) := by
    intro fs
    unfold granted
    rw [filterMap_append, filterMap_cons]
    exact mem_append_right _ mem_cons_self
  have hend : Live (es ++ ⟨t, .grant g⟩ :: mid) g.name g.token t' :=
    h.of_snoc.2.takenBack _ _ rfl
  have hlive : ∀ mid₁ f mid₂, mid ++ [⟨t', .takeBack g.name g.token⟩] = mid₁ ++ f :: mid₂ →
      Live (es ++ ⟨t, .grant g⟩ :: mid₁) g.name g.token f.time := by
    intro mid₁ f mid₂ hsplit
    rcases eq_nil_or_concat mid₂ with rfl | ⟨mid₃, last, rfl⟩
    · obtain ⟨rfl, hlast⟩ := append_inj' hsplit rfl
      obtain rfl := singleton_inj.mp hlast
      exact hend
    rw [concat_eq_append, ← cons_append, ← append_assoc] at hsplit
    obtain ⟨rfl, -⟩ := append_inj' hsplit rfl
    have hbefore := h.of_snoc.1
    have htime := h.of_snoc.2.time
    rw [hassoc mid₁] at hbefore hend htime
    exact hbefore.live_of_append (hgranted mid₁)
      (fun e' he' => htime e' (mem_append_right _ he')) hend
  refine ⟨hlive, ?_⟩
  intro f hf g' hact hname
  obtain ⟨mid₁, mid₂, rfl⟩ := append_of_mem hf
  -- the grant of `g'` found the name free, but this lease was live
  obtain ⟨x, hx, hxn, -, hlt⟩ := hlive mid₁ f (mid₂ ++ [⟨t', .takeBack g.name g.token⟩])
    (by simp)
  have hbefore := h.of_snoc.1
  rw [hassoc] at hbefore
  exact absurd (hbefore.allowed.free g' hact x hx (hxn.trans hname.symm)) (not_le.mpr hlt)

end Lib.Fencing
