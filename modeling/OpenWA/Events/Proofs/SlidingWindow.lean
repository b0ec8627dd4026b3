/-
The sliding window's bound, with refunds, over every run.

# The account

What was allowed on a subject is on its list, was taken by a refund, or has
left the list otherwise; a hit that left it otherwise was out of the window
by then or was on the list when the entry was evicted (`Accounted`). So a
call finds on the list every hit that counts for an interval it falls in,
if no eviction falls in that interval too, and the bound of an interval is
the test `recent.length < max` of the last call in it. Order on the list
plays no part: a refund out of the middle only makes the count smaller.
-/
import OpenWA.Events.RateLimit
import Mathlib.Data.Multiset.Count
import Mathlib.Tactic.Linarith

namespace OpenWA.Events

open SlidingWindowLimiter List

variable {Subject Reservation : Type*} [DecidableEq Subject] [DecidableEq Reservation]
  {l : SlidingWindowLimiter}

-- ======== one list

/-- A refund by reservation: nothing on the list has it, or the first hit
that has it is taken out. -/
theorem refunded_some (hits : List (Hit Reservation)) (r : Reservation) :
    (∀ h ∈ hits, h.reservation ≠ some r) ∧ refunded hits (some r) = hits
        ∧ taken hits (some r) = none
    ∨ ∃ h before behind, h.reservation = some r ∧ hits = before ++ h :: behind
        ∧ refunded hits (some r) = before ++ behind ∧ taken hits (some r) = some h := by
  by_cases hnone : ∀ h ∈ hits, h.reservation ≠ some r
  · exact .inl ⟨hnone, eraseP_of_forall_not (by simpa using hnone), by simpa [taken] using hnone⟩
  · push Not at hnone
    obtain ⟨h, hh, hr⟩ := hnone
    obtain ⟨h, before, behind, hfirst, hr, hsplit, hsame⟩ :=
      exists_of_eraseP (p := fun h => h.reservation = some r) hh (decide_eq_true hr)
    refine .inr ⟨h, before, behind, of_decide_eq_true hr, hsplit, hsame, ?_⟩
    rw [hsplit]
    exact find?_eq_some_iff_append.mpr ⟨hr, before, behind, rfl, by simpa using hfirst⟩

/-- A refund takes at most one hit off the list and leaves the others. -/
theorem perm_refunded (hits : List (Hit Reservation)) (reservation : Option Reservation) :
    hits.Perm (refunded hits reservation ++ (taken hits reservation).toList) := by
  cases reservation with
  | none =>
    show hits.Perm (hits.dropLast ++ hits.getLast?.toList)
    cases hlast : hits.getLast? with
    | none => rw [getLast?_eq_none_iff.mp hlast]; rfl
    | some h => exact (dropLast_append_getLast? h hlast).symm ▸ List.Perm.refl _
  | some r =>
    rcases refunded_some hits r with ⟨-, hsame, htaken⟩
      | ⟨h, before, behind, -, hsplit, hsame, htaken⟩
    · rw [hsame, htaken]
      exact (append_nil hits).symm ▸ List.Perm.refl _
    · rw [hsame, htaken, hsplit, append_assoc]
      exact List.Perm.append_left before (perm_append_singleton h behind).symm

namespace WindowWorld

variable {w : WindowWorld Subject Reservation} {s k : Subject} {t : ℚ}
  {reservation : Option Reservation}

-- ======== the steps

omit [DecidableEq Reservation] in
theorem list_allow_self :
    (w.allow l s reservation t).list s
      = if (l.allow w.hits s reservation t).1 then l.recent (w.list s) t ++ [⟨t, reservation⟩]
        else l.recent (w.list s) t := by
  have hroom : (∅ : Finset Subject).card < (max 1 l.maxKeys).toNat := by
    rw [Finset.card_empty]
    omega
  have hrecent := (Record.recent_touch_self w.hits s
    (if (l.allow w.hits s reservation t).1 then l.recent (w.list s) t ++ [⟨t, reservation⟩]
      else l.recent (w.list s) t)).evict hroom
  show ((l.allow w.hits s reservation t).2.get s).getD [] = _
  have hget : (l.allow w.hits s reservation t).2.get s = _ := hrecent.get
  rw [hget]
  rfl

omit [DecidableEq Reservation] in
/-- A call that is let through is logged. -/
theorem log_allow : (w.allow l s reservation t).log k
    = if k = s ∧ (l.allow w.hits s reservation t).1 = true then w.log k ++ [⟨t, reservation⟩]
      else w.log k := rfl

omit [DecidableEq Reservation] in
/-- The entry of another subject is as it was, or evicted. -/
theorem get_allow_of_ne {v : List (Hit Reservation)} (h : k ≠ s)
    (hk : (l.allow w.hits s reservation t).2.get k = some v) : w.hits.get k = some v := by
  have htouch := Record.get_of_get_evict hk
  rwa [Record.get_touch_of_ne _ _ h] at htouch

omit [DecidableEq Reservation] in
theorem mem_evictions_allow {e : ℚ} (h : e ∈ w.evictions k) :
    e ∈ (w.allow l s reservation t).evictions k := by
  show e ∈ if _ then w.evictions k ++ [t] else w.evictions k
  split
  · exact mem_append_left _ h
  · exact h

theorem list_refund_self : (w.refund s reservation).list s = refunded (w.list s) reservation := by
  show ((SlidingWindowLimiter.refund w.hits s reservation).get s).getD [] = _
  unfold SlidingWindowLimiter.refund list
  cases hget : w.hits.get s with
  | none =>
    rw [hget]
    cases reservation <;> rfl
  | some recent => rw [Record.get_set_self]; rfl

theorem list_refund_of_ne (h : k ≠ s) : (w.refund s reservation).list k = w.list k := by
  show ((SlidingWindowLimiter.refund w.hits s reservation).get k).getD [] = _
  unfold SlidingWindowLimiter.refund
  cases w.hits.get s with
  | none => rfl
  | some recent =>
    dsimp only
    rw [Record.get_set_of_ne w.hits _ h]
    rfl

-- ======== the account

/-- A hit left its list by itself: out of the window, or by an eviction. -/
def Left (l : SlidingWindowLimiter) (w : WindowWorld Subject Reservation) (s : Subject)
    (h : Hit Reservation) : Prop :=
  l.windowMs ≤ w.now - h.time ∨ ∃ e ∈ w.evictions s, h.time ≤ e

/-- The hits of the interval of window length that starts at `a`. -/
def within (l : SlidingWindowLimiter) (a : ℚ) (h : Hit Reservation) : Bool :=
  decide (a ≤ h.time ∧ h.time < a + l.windowMs)

/-- No eviction of the subject in the interval of window length from `a`. -/
def Kept (l : SlidingWindowLimiter) (w : WindowWorld Subject Reservation) (s : Subject)
    (a : ℚ) : Prop :=
  ∀ e ∈ w.evictions s, e < a ∨ a + l.windowMs ≤ e

/-- Every hit let through is listed, handed back or has left. -/
structure Accounted (l : SlidingWindowLimiter) (w : WindowWorld Subject Reservation) : Prop where
  logged : ∀ s, ∀ h ∈ w.log s, h.time ≤ w.now
  evicted : ∀ s, ∀ e ∈ w.evictions s, e ≤ w.now
  account : ∀ s, ∃ gone, (w.log s).Perm (gone ++ w.list s ++ w.removed s) ∧ ∀ h ∈ gone, Left l w s h
  ordered : ∀ s, (w.list s).Pairwise fun h h' => h.time ≤ h'.time
  bound : ∀ s a, Kept l w s a →
    (w.log s).countP (within l a) ≤ l.max + (w.removed s).countP (within l a)
  named : ∀ s r, (w.log s).countP (fun h => h.reservation = some r) ≤ (w.named s).count r

theorem accounted_new (l : SlidingWindowLimiter) (start : ℚ) :
    Accounted l (new start : WindowWorld Subject Reservation) where
  logged s h hh := by cases hh
  evicted s e he := by cases he
  account s := ⟨[], List.Perm.refl [], fun h hh => by cases hh⟩
  ordered s := List.Pairwise.nil
  bound s a _ := Nat.zero_le _
  named s r := Nat.le_refl 0

omit [DecidableEq Reservation] in
theorem Left.allow {h : Hit Reservation} (hleft : Left l w k h) (ht : w.now ≤ t) :
    Left l (w.allow l s reservation t) k h := by
  rcases hleft with hold | ⟨e, he, hle⟩
  · left
    show l.windowMs ≤ t - h.time
    linarith
  · exact .inr ⟨e, mem_evictions_allow he, hle⟩

section

variable (hw : Accounted l w)
include hw

/-- What is on the list was allowed, and not later than now. -/
theorem Accounted.mem_log {h : Hit Reservation} (hh : h ∈ w.list s) : h ∈ w.log s := by
  obtain ⟨gone, hperm, -⟩ := hw.account s
  exact hperm.mem_iff.mpr (mem_append_left _ (mem_append_right _ hh))

/-- On the list there is every hit of an interval the reading is in. -/
theorem Accounted.countP_log (ht : w.now ≤ t) {a : ℚ} (hkept : Kept l w s a)
    (hhigh : t < a + l.windowMs) :
    (w.log s).countP (within l a)
      ≤ (l.recent (w.list s) t).length + (w.removed s).countP (within l a) := by
  obtain ⟨gone, hperm, hgone⟩ := hw.account s
  have hnone : gone.countP (within l a) = 0 := by
    rw [countP_eq_zero]
    intro h hh hin
    obtain ⟨ha, -⟩ := of_decide_eq_true hin
    rcases hgone h hh with hold | ⟨e, he, hle⟩
    · linarith
    · have hnow := hw.evicted s e he
      rcases hkept e he with hbefore | hafter <;> linarith
  have hlist : (w.list s).countP (within l a) ≤ (l.recent (w.list s) t).length := by
    unfold SlidingWindowLimiter.recent
    rw [← countP_eq_length_filter]
    refine countP_mono_left fun h _ hin => ?_
    obtain ⟨ha, -⟩ := of_decide_eq_true hin
    exact decide_eq_true (by linarith)
  rw [hperm.countP_eq, countP_append, countP_append, hnone]
  omega

-- ======== a call

/-- A call takes off its subject's list what is out of the window. -/
theorem Accounted.account_allow_self (ht : w.now ≤ t) :
    ∃ gone, ((w.allow l s reservation t).log s).Perm
        (gone ++ (w.allow l s reservation t).list s ++ w.removed s)
      ∧ ∀ h ∈ gone, Left l (w.allow l s reservation t) s h := by
  obtain ⟨gone, hperm, hgone⟩ := hw.account s
  let out := (w.list s).filter fun h => !decide (t - h.time < l.windowMs)
  have hlog : (w.log s).Perm (gone ++ out ++ l.recent (w.list s) t ++ w.removed s) := by
    have hsplit : (w.list s).Perm (l.recent (w.list s) t ++ out) := (filter_append_perm _ _).symm
    refine hperm.trans (List.Perm.append_right _ ?_)
    rw [append_assoc]
    exact List.Perm.append_left _ (hsplit.trans perm_append_comm)
  refine ⟨gone ++ out, ?_, fun h hh => ?_⟩
  · rw [list_allow_self, log_allow]
    by_cases hallowed : (l.allow w.hits s reservation t).1 = true
    · rw [if_pos ⟨rfl, hallowed⟩, if_pos hallowed, ← append_assoc]
      refine (hlog.append_right _).trans ?_
      rw [append_assoc, append_assoc _ _ (w.removed s)]
      exact List.Perm.append_left _ perm_append_comm
    · rw [if_neg fun h => hallowed h.2, if_neg hallowed]
      exact hlog
  · rcases mem_append.mp hh with hh | hh
    · exact (hgone h hh).allow ht
    · have hout := (mem_filter.mp hh).2
      left
      show l.windowMs ≤ t - h.time
      simpa using hout

/-- A call leaves another subject's list, or evicts it with all its hits. -/
theorem Accounted.account_allow_of_ne (ht : w.now ≤ t) (hks : k ≠ s) :
    ∃ gone, ((w.allow l s reservation t).log k).Perm
        (gone ++ (w.allow l s reservation t).list k ++ w.removed k)
      ∧ ∀ h ∈ gone, Left l (w.allow l s reservation t) k h := by
  obtain ⟨gone, hperm, hgone⟩ := hw.account k
  have hgone' : ∀ h ∈ gone, Left l (w.allow l s reservation t) k h :=
    fun h hh => (hgone h hh).allow ht
  rw [log_allow, if_neg fun h => hks h.1]
  show ∃ gone, (w.log k).Perm
    (gone ++ ((l.allow w.hits s reservation t).2.get k).getD [] ++ w.removed k) ∧ _
  cases hget : (l.allow w.hits s reservation t).2.get k with
  | some v =>
    refine ⟨gone, ?_, hgone'⟩
    unfold list at hperm
    rw [get_allow_of_ne hks hget] at hperm
    exact hperm
  | none =>
    refine ⟨gone ++ w.list k, ?_, fun h hh => ?_⟩
    · rw [Option.getD_none, append_nil]
      exact hperm
    · rcases mem_append.mp hh with hh | hh
      · exact hgone' h hh
      · refine .inr ⟨t, ?_, (hw.logged k h (hw.mem_log hh)).trans ht⟩
        have hsome : (w.hits.get k).isSome := by
          cases hold : w.hits.get k with
          | none =>
            unfold list at hh
            rw [hold] at hh
            cases hh
          | some v => rfl
        show t ∈ if _ then w.evictions k ++ [t] else w.evictions k
        rw [if_pos ⟨hsome, hget⟩]
        exact mem_append_right _ (mem_singleton_self t)

theorem Accounted.allow (ht : w.now ≤ t) (s : Subject)
    (reservation : Option Reservation) : Accounted l (w.allow l s reservation t) where
  logged k h hh := by
    rw [log_allow] at hh
    show h.time ≤ t
    split at hh
    · rcases mem_append.mp hh with hold | hnew
      · exact (hw.logged k h hold).trans ht
      · rw [mem_singleton.mp hnew]
    · exact (hw.logged k h hh).trans ht
  evicted k e he := by
    have he' : e ∈ if _ then w.evictions k ++ [t] else w.evictions k := he
    show e ≤ t
    split at he'
    · rcases mem_append.mp he' with hold | hnew
      · exact (hw.evicted k e hold).trans ht
      · rw [mem_singleton.mp hnew]
    · exact (hw.evicted k e he').trans ht
  account k := by
    by_cases hks : k = s
    · subst hks
      exact hw.account_allow_self ht
    · exact hw.account_allow_of_ne ht hks
  ordered k := by
    have hold := hw.ordered k
    by_cases hks : k = s
    · subst hks
      rw [list_allow_self]
      split
      · refine pairwise_append.mpr ⟨hold.filter _, pairwise_singleton _ _, fun h hh h' hnew => ?_⟩
        rw [mem_singleton.mp hnew]
        exact (hw.logged k h (hw.mem_log (mem_filter.mp hh).1)).trans ht
      · exact hold.filter _
    · unfold list at hold ⊢
      cases hget : (w.allow l s reservation t).hits.get k with
      | none => exact List.Pairwise.nil
      | some v =>
        rw [get_allow_of_ne hks hget] at hold
        exact hold
  bound k a hkept := by
    have hkept' : Kept l w k a := fun e he => hkept e (mem_evictions_allow he)
    rw [log_allow]
    show _ ≤ l.max + (w.removed k).countP (within l a)
    split
    next h =>
      obtain ⟨rfl, hallowed⟩ := h
      have hroom : (l.recent (w.list k) t).length < l.max := of_decide_eq_true hallowed
      rw [countP_append, countP_singleton]
      split
      next hin =>
        have hle := hw.countP_log ht hkept' (of_decide_eq_true hin).2
        omega
      next => exact hw.bound k a hkept'
    next => exact hw.bound k a hkept'
  named k r := by
    rw [log_allow]
    show _ ≤ (if k = s then w.named k ++ reservation.toList else w.named k).count r
    have hold := hw.named k r
    by_cases hks : k = s
    · rw [if_pos hks, count_append]
      split
      · have hone : [(⟨t, reservation⟩ : Hit Reservation)].countP (fun h => h.reservation = some r)
            ≤ reservation.toList.count r := by
          cases reservation with
          | none => simp
          | some r' => by_cases hr : r' = r <;> simp [hr]
        rw [countP_append]
        omega
      · omega
    · rw [if_neg hks, if_neg fun h => hks h.1]
      exact hold

-- ======== a refund

theorem Accounted.refund (s : Subject) (reservation : Option Reservation) :
    Accounted l (w.refund s reservation) where
  logged := hw.logged
  evicted := hw.evicted
  account k := by
    obtain ⟨gone, hperm, hgone⟩ := hw.account k
    refine ⟨gone, ?_, hgone⟩
    show (w.log k).Perm (gone ++ _ ++ if k = s then _ else w.removed k)
    by_cases hks : k = s
    · subst hks
      rw [if_pos rfl, list_refund_self]
      refine hperm.trans ?_
      rw [append_assoc, append_assoc]
      refine List.Perm.append_left gone ?_
      refine ((perm_refunded (w.list k) reservation).append_right _).trans ?_
      rw [append_assoc]
      exact List.Perm.append_left _ perm_append_comm
    · rw [if_neg hks, list_refund_of_ne hks]
      exact hperm
  ordered k := by
    by_cases hks : k = s
    · subst hks
      rw [list_refund_self]
      cases reservation with
      | none => exact (hw.ordered k).sublist (dropLast_sublist _)
      | some r => exact (hw.ordered k).sublist eraseP_sublist
    · rw [list_refund_of_ne hks]
      exact hw.ordered k
  bound k a hkept := by
    have hold := hw.bound k a hkept
    show (w.log k).countP _ ≤ l.max + (if k = s then _ else w.removed k).countP _
    split
    · rw [countP_append]
      omega
    · exact hold
  named := hw.named

/-- Every call keeps the accounts. -/
theorem Accounted.step {act : WindowAct Subject Reservation} {w' : WindowWorld Subject Reservation}
    (hs : (window l).step act w = some w') : Accounted l w' := by
  cases act with
  | allow s reservation t =>
    obtain ⟨ht, ⟨⟩⟩ := Option.ite_none_right_eq_some.mp hs
    exact hw.allow ht s reservation
  | refund s reservation =>
    cases hs
    exact hw.refund s reservation

end

theorem accounted_reach {start : ℚ} (hr : (window l).Reach (new start) w) : Accounted l w :=
  hr.invariant (accounted_new l start) fun _ _ _ hw hs => hw.step hs

-- ======== the result

theorem Accounted.standing_eq (hw : Accounted l w) (s : Subject) :
    ∃ gone : List (Hit Reservation), w.standing s = ↑(gone ++ w.list s) := by
  obtain ⟨gone, hperm, -⟩ := hw.account s
  refine ⟨gone, ?_⟩
  unfold standing
  rw [Multiset.coe_eq_coe.mpr hperm, ← Multiset.coe_add, Multiset.add_sub_cancel_right]

/-- Only what was let through is handed back. -/
theorem Accounted.removed_le (hw : Accounted l w) (s : Subject) :
    (w.removed s : Multiset (Hit Reservation)) ≤ w.log s := by
  obtain ⟨gone, hperm, -⟩ := hw.account s
  rw [Multiset.coe_eq_coe.mpr hperm, ← Multiset.coe_add]
  exact Multiset.le_add_left _ _

/-- A call that is refused finds the window full of standing hits. -/
theorem Accounted.refused_full (hw : Accounted l w) (ht : w.now ≤ t)
    (hrefused : (l.allow w.hits s reservation t).1 = false) :
    l.max ≤ (w.standing s).countP (fun h => t - l.windowMs < h.time ∧ h.time ≤ t) := by
  have hfull : l.max ≤ (l.recent (w.list s) t).length := not_lt.mp (of_decide_eq_false hrefused)
  obtain ⟨gone, hstanding⟩ := hw.standing_eq s
  have hrecent : (l.recent (w.list s) t).length
      ≤ (w.list s).countP (fun h => decide (t - l.windowMs < h.time ∧ h.time ≤ t)) := by
    unfold SlidingWindowLimiter.recent
    rw [← countP_eq_length_filter]
    refine countP_mono_left fun h hh hin => ?_
    have htime := hw.logged s h (hw.mem_log hh)
    have hin' := of_decide_eq_true hin
    exact decide_eq_true ⟨by linarith, by linarith⟩
  rw [hstanding, Multiset.coe_countP, countP_append]
  omega

/-- Over every run of calls and refunds: in no interval of window length,
its end left out, do more than `max` hits of a subject stand that was not
evicted in it; a refund by reservation takes at most one hit, which the
reservation names, and no more of them than calls came with it; a refund
without one takes the latest hit of its subject; and a call is refused only
when `max` hits stand in the window that ends at it. -/
theorem sliding_window_bound (l : SlidingWindowLimiter) (start : ℚ)
    (hr : (window l).Reach (new start) w) :
    (∀ s a, (∀ e ∈ w.evictions s, e < a ∨ a + l.windowMs ≤ e) →
      (w.standing s).countP (fun h => a ≤ h.time ∧ h.time < a + l.windowMs) ≤ l.max)
    ∧ (∀ s r, (∀ k, k ≠ s → (w.refund s (some r)).list k = w.list k)
        ∧ ((∀ h ∈ w.list s, h.reservation ≠ some r) ∧ (w.refund s (some r)).list s = w.list s
          ∨ ∃ h before behind, h.reservation = some r ∧ w.list s = before ++ h :: behind
            ∧ (w.refund s (some r)).list s = before ++ behind
            ∧ (w.refund s (some r)).removed s = w.removed s ++ [h]))
    ∧ (∀ s r, (w.removed s).countP (fun h => h.reservation = some r) ≤ (w.named s).count r)
    ∧ (∀ s, (∀ k, k ≠ s → (w.refund s none).list k = w.list k)
        ∧ (w.list s = [] ∧ (w.refund s none).list s = [] ∧ (w.refund s none).removed s = w.removed s
          ∨ ∃ h before, w.list s = before ++ [h] ∧ (∀ h' ∈ before, h'.time ≤ h.time)
            ∧ (w.refund s none).list s = before
            ∧ (w.refund s none).removed s = w.removed s ++ [h]))
    ∧ (∀ s reservation t, w.now ≤ t → (l.allow w.hits s reservation t).1 = false →
        l.max ≤ (w.standing s).countP (fun h => t - l.windowMs < h.time ∧ h.time ≤ t)) := by
  have hw := accounted_reach hr
  have hremoved : ∀ s reservation, (w.refund s reservation).removed s
      = w.removed s ++ (taken (w.list s) reservation).toList := fun s _ => if_pos rfl
  refine ⟨?_, ?_, ?_, ?_, ?_⟩
  · intro s a hkept
    have hbound := hw.bound s a hkept
    unfold standing
    rw [Multiset.countP_sub (hw.removed_le s), Multiset.coe_countP, Multiset.coe_countP]
    unfold within at hbound
    omega
  · intro s r
    refine ⟨fun k hk => list_refund_of_ne hk, ?_⟩
    rw [list_refund_self]
    rcases refunded_some (w.list s) r with
      ⟨hnone, hsame, -⟩ | ⟨h, before, behind, hres, hsplit, hsame, htaken⟩
    · exact .inl ⟨hnone, hsame⟩
    · refine .inr ⟨h, before, behind, hres, hsplit, hsame, ?_⟩
      rw [hremoved, htaken]
      rfl
  · intro s r
    have hle := Multiset.countP_le_of_le (fun h => h.reservation = some r) (hw.removed_le s)
    exact hle.trans (hw.named s r)
  · intro s
    refine ⟨fun k hk => list_refund_of_ne hk, ?_⟩
    rw [list_refund_self, hremoved]
    rcases eq_nil_or_concat (w.list s) with hnil | ⟨before, h, hlist⟩
    · rw [hnil]
      exact .inl ⟨rfl, rfl, append_nil _⟩
    · have hordered := hw.ordered s
      rw [hlist, concat_eq_append] at hordered ⊢
      refine .inr ⟨h, before, rfl, fun h' hh' => ?_, dropLast_concat, ?_⟩
      · exact (pairwise_append.mp hordered).2.2 h' hh' h (mem_singleton_self h)
      · show w.removed s ++ ((before ++ [h]).getLast?).toList = _
        rw [getLast?_concat]
        rfl
  · intro s reservation t ht hrefused
    exact hw.refused_full ht hrefused

/-- Room for two: the first of three calls is refunded, the fourth call finds
the other two. -/
theorem sliding_window_bound_two : ∃ w : WindowWorld Unit ℕ, ∃ l : SlidingWindowLimiter,
    (window l).Reach (new 0) w ∧ l.max = 2 ∧ (w.log ()).length = 3
      ∧ (l.allow w.hits () none 7).1 = false
      ∧ 2 ≤ (w.standing ()).countP (fun h => 7 - l.windowMs < h.time ∧ h.time ≤ 7)
      ∧ (w.standing ()).countP (fun h => 0 ≤ h.time ∧ h.time < 0 + l.windowMs) ≤ 2 := by
  obtain ⟨w, hr, hw⟩ := Machine.exists_reach_of_run
    (M := (window ⟨2, 10, 5⟩ : Machine (WindowWorld Unit ℕ) (WindowAct Unit ℕ))) (new 0)
    [.allow () (some 0) 0, .allow () (some 1) 5, .refund () (some 0), .allow () (some 2) 6]
    (fun w : WindowWorld Unit ℕ => decide (w.now ≤ 7 ∧ w.evictions () = [] ∧ (w.log ()).length = 3
      ∧ (SlidingWindowLimiter.allow ⟨2, 10, 5⟩ w.hits () none 7).1 = false)) (by decide +kernel)
  obtain ⟨hnow, hkept, hlog, hrefused⟩ := of_decide_eq_true hw
  obtain ⟨hbound, -, -, -, hfull⟩ := sliding_window_bound ⟨2, 10, 5⟩ 0 hr
  refine ⟨w, ⟨2, 10, 5⟩, hr, rfl, hlog, hrefused, hfull () none 7 hnow hrefused, ?_⟩
  exact hbound () 0 (by rw [hkept]; simp)

/-- A refund that names no reservation takes the latest hit, here that of
reservation 1, though reservation 0 has its own on the list. And two calls a
window apart are both allowed where `max` is one. -/
theorem refund_without_reservation :
    (∃ w w' : WindowWorld Unit ℕ, (window ⟨2, 10, 5⟩).Reach (new 0) w
      ∧ (window ⟨2, 10, 5⟩).step (.refund () none) w = some w'
      ∧ w.list () = [⟨0, some 0⟩, ⟨0, some 1⟩] ∧ w'.removed () = [⟨0, some 1⟩])
    ∧ ∃ w : WindowWorld Unit ℕ, (window ⟨1, 10, 5⟩).Reach (new 0) w
      ∧ (w.standing ()).countP (fun h => 0 ≤ h.time ∧ h.time ≤ 0 + 10) = 2 := by
  constructor
  · obtain ⟨w, hr, hw⟩ := Machine.exists_reach_of_run
      (M := (window ⟨2, 10, 5⟩ : Machine (WindowWorld Unit ℕ) (WindowAct Unit ℕ))) (new 0)
      [.allow () (some 0) 0, .allow () (some 1) 0]
      (fun w : WindowWorld Unit ℕ => decide (w.list () = [⟨0, some 0⟩, ⟨0, some 1⟩]
        ∧ (w.refund () none).removed () = [⟨0, some 1⟩])) (by decide +kernel)
    obtain ⟨hlist, hremoved⟩ := of_decide_eq_true hw
    exact ⟨w, _, hr, rfl, hlist, hremoved⟩
  · obtain ⟨w, hr, hw⟩ := Machine.exists_reach_of_run
      (M := (window ⟨1, 10, 5⟩ : Machine (WindowWorld Unit ℕ) (WindowAct Unit ℕ))) (new 0)
      [.allow () none 0, .allow () none 10]
      (fun w : WindowWorld Unit ℕ => decide
        ((w.standing ()).countP (fun h => 0 ≤ h.time ∧ h.time ≤ 0 + 10) = 2)) (by decide +kernel)
    exact ⟨w, hr, of_decide_eq_true hw⟩

end WindowWorld

end OpenWA.Events
