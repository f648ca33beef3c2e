import DocLayout.Layout.LookAhead

/-! # How far the look-ahead reads

The look-ahead draws a command only when it has none left of its own, and only as long as it has
not found its answer.

* **Reading.**  `Reads b own items b' own'` : drawing exactly `items`, the look-ahead comes from a
  budget and commands of its own to others, without an answer on the way.  What follows `items` is
  not looked at (`Reads.run_eq`).
* **Stopping.**  It has found its answer once the budget is overdrawn or a command decides
  (`Finds`), and then it draws nothing more (`Finds.run_eq`).  Otherwise it reads on until it meets
  the end.  There is no third way (`exists_reads`).
* **No more than needed.**  Just before a command is drawn, the look-ahead is where it meets the end
  of what it has drawn so far (`Reads.before`).  Up to there the answer is still open: it is yes if
  nothing follows, and no if a break parent does (`MeetsEnd.answer_open`). -/

namespace DocLayout

namespace LookAhead

variable {ι : Type} [Indent ι] {b b' : Budget} {own own' items : List (Command ι)}

/-! ### Equations of the look-ahead -/

theorem run_overdrawn (h : b.isSound = false) (own : List (Command ι)) (feed : Feed (Command ι))
    (drawn : Nat) : run b own feed drawn = (.ok false, drawn) := by
  unfold run
  rw [h]
  rfl

/-- Without commands of its own the look-ahead draws one, and takes the end for a yes. -/
theorem run_nil (h : b.isSound = true) (feed : Feed (Command ι)) (drawn : Nat) :
    run b [] feed drawn =
      match feed with
      | ⟨[], none⟩ => (.ok true, drawn)
      | ⟨[], some e⟩ => (.error e, drawn)
      | ⟨c :: cs, failure⟩ => run b [c] ⟨cs, failure⟩ (drawn + 1) := by
  obtain ⟨items, failure⟩ := feed
  cases items with
  | cons c cs => rw [run]; simp only [h, if_true]
  | nil =>
      cases failure with
      | none => rw [run]; simp only [h, if_true]
      | some e => rw [run]; simp only [h, if_true]

theorem run_cons (h : b.isSound = true) (c : Command ι) (own : List (Command ι))
    (feed : Feed (Command ι)) (drawn : Nat) :
    run b (c :: own) feed drawn =
      match glance c with
      | .takes columns => run (b.spend columns) own feed drawn
      | .inner cs => run b (cs ++ own) feed drawn
      | .decides fits => (.ok fits, drawn)
      | .refused e => (.error e, drawn) := by
  rw [run]
  simp only [h, if_true]
  split <;> simp_all

/-! ### Reading -/

/-- With the budget `b` and the commands `own`, the look-ahead draws exactly `items` and comes to
the budget `b'` and the commands `own'`. -/
inductive Reads : Budget → List (Command ι) → List (Command ι) → Budget → List (Command ι) → Prop
  | refl (b : Budget) (own : List (Command ι)) : Reads b own [] b own
  | draw {b b' : Budget} {c : Command ι} {items own' : List (Command ι)} : b.isSound = true →
      Reads b [c] items b' own' → Reads b [] (c :: items) b' own'
  | takes {b b' : Budget} {c : Command ι} {own items own' : List (Command ι)} {columns : Nat} :
      b.isSound = true → glance c = .takes columns → Reads (b.spend columns) own items b' own' →
      Reads b (c :: own) items b' own'
  | inner {b b' : Budget} {c : Command ι} {cs own items own' : List (Command ι)} :
      b.isSound = true → glance c = .inner cs → Reads b (cs ++ own) items b' own' →
      Reads b (c :: own) items b' own'

/-- What has been read is behind the look-ahead, and what follows it is still to come. -/
theorem Reads.run_eq (h : Reads b own items b' own') (rest : List (Command ι))
    (failure : Option Failure) (drawn : Nat) :
    run b own ⟨items ++ rest, failure⟩ drawn =
      run b' own' ⟨rest, failure⟩ (drawn + items.length) := by
  induction h generalizing drawn with
  | refl b own => rfl
  | draw hb _ ih =>
      rw [List.cons_append, run_nil hb]
      simp only [ih, List.length_cons]
      rw [Nat.add_assoc, Nat.add_comm 1]
  | takes hb hc _ ih =>
      rw [run_cons hb, hc]
      exact ih drawn
  | inner hb hc _ ih =>
      rw [run_cons hb, hc]
      exact ih drawn

/-- Before one more command is drawn, all of those drawn so far are used up and the budget is not
overdrawn. -/
theorem Reads.before (h : Reads b own items b' own') {k : Nat} (hk : k < items.length) :
    ∃ left : Budget, left.isSound = true ∧ Reads b own (items.take k) left [] := by
  induction h generalizing k with
  | refl b own => exact absurd hk (Nat.not_lt_zero k)
  | @draw b b' c items own' hb _ ih =>
      cases k with
      | zero => exact ⟨b, hb, .refl b []⟩
      | succ k =>
          obtain ⟨left, hleft, hr⟩ := ih (Nat.lt_of_succ_lt_succ hk)
          exact ⟨left, hleft, .draw hb hr⟩
  | takes hb hc _ ih =>
      obtain ⟨left, hleft, hr⟩ := ih hk
      exact ⟨left, hleft, .takes hb hc hr⟩
  | inner hb hc _ ih =>
      obtain ⟨left, hleft, hr⟩ := ih hk
      exact ⟨left, hleft, .inner hb hc hr⟩

/-! ### Stopping -/

/-- The answer is found with what is at hand. -/
inductive Finds : Budget → List (Command ι) → Except Failure Bool → Prop
  | overdrawn {b : Budget} (own : List (Command ι)) : b.isSound = false → Finds b own (.ok false)
  | decides {b : Budget} {c : Command ι} {fits : Bool} (own : List (Command ι)) :
      b.isSound = true → glance c = .decides fits → Finds b (c :: own) (.ok fits)
  | refused {b : Budget} {c : Command ι} {e : Failure} (own : List (Command ι)) :
      b.isSound = true → glance c = .refused e → Finds b (c :: own) (.error e)

theorem Finds.run_eq {answer : Except Failure Bool} (h : Finds b own answer)
    (feed : Feed (Command ι)) (drawn : Nat) : run b own feed drawn = (answer, drawn) := by
  cases h with
  | overdrawn own hb => exact run_overdrawn hb own feed drawn
  | decides own hb hc => rw [run_cons hb, hc]
  | refused own hb hc => rw [run_cons hb, hc]

/-- **The look-ahead stops in one of two ways**: it uses up everything and meets the end, or it
draws some of the commands and finds its answer. -/
theorem exists_reads (b : Budget) (own : List (Command ι)) (feed : Feed (Command ι)) :
    (∃ left : Budget, left.isSound = true ∧ Reads b own feed.items left []) ∨
      ∃ n b' own' answer, n ≤ feed.items.length ∧ Reads b own (feed.items.take n) b' own' ∧
        Finds b' own' answer := by
  -- The recursion is that of the look-ahead, whatever it has drawn before.
  obtain ⟨drawn⟩ : Nonempty Nat := inferInstance
  fun_induction run b own feed drawn with
  | case1 b drawn hb => exact Or.inl ⟨b, hb, .refl b []⟩
  | case2 b drawn hb e => exact Or.inl ⟨b, hb, .refl b []⟩
  | case3 b drawn hb c cs failure ih =>
      rcases ih with ⟨left, hleft, hr⟩ | ⟨n, b', own', answer, hn, hr, hfinds⟩
      · exact Or.inl ⟨left, hleft, .draw hb hr⟩
      · exact Or.inr ⟨n + 1, b', own', answer, Nat.succ_le_succ hn, .draw hb hr, hfinds⟩
  | case4 b drawn hb c own feed columns hc ih =>
      rcases ih with ⟨left, hleft, hr⟩ | ⟨n, b', own', answer, hn, hr, hfinds⟩
      · exact Or.inl ⟨left, hleft, .takes hb hc hr⟩
      · exact Or.inr ⟨n, b', own', answer, hn, .takes hb hc hr, hfinds⟩
  | case5 b drawn hb c own feed cs hc ih =>
      rcases ih with ⟨left, hleft, hr⟩ | ⟨n, b', own', answer, hn, hr, hfinds⟩
      · exact Or.inl ⟨left, hleft, .inner hb hc hr⟩
      · exact Or.inr ⟨n, b', own', answer, hn, .inner hb hc hr, hfinds⟩
  | case6 b drawn hb c own feed fits hc =>
      exact Or.inr ⟨0, b, _, _, Nat.zero_le _, .refl b _, .decides own hb hc⟩
  | case7 b drawn hb c own feed e hc =>
      exact Or.inr ⟨0, b, _, _, Nat.zero_le _, .refl b _, .refused own hb hc⟩
  | case8 b own feed drawn hb =>
      exact Or.inr ⟨0, b, _, _, Nat.zero_le _, .refl b _, .overdrawn own (by simpa using hb)⟩

theorem le_drawn (b : Budget) (own : List (Command ι)) (feed : Feed (Command ι)) (drawn : Nat) :
    drawn ≤ (run b own feed drawn).2 := by
  fun_induction run b own feed drawn <;> omega

end LookAhead

section Demand

open LookAhead

variable {ι : Type} [Indent ι] {budget : Budget} {cs : List (Command ι)}

/-- The look-ahead asks for one command more than there are: it has used up all of them without
finding an answer. -/
def MeetsEnd (budget : Budget) (cs : List (Command ι)) : Prop :=
  ∃ left : Budget, left.isSound = true ∧ Reads budget [] cs left []

namespace MeetsEnd

theorem exists_run (h : MeetsEnd budget cs) :
    ∃ left : Budget, left.isSound = true ∧ ∀ (rest : List (Command ι)) (failure : Option Failure),
      fits budget ⟨cs ++ rest, failure⟩ = run left [] ⟨rest, failure⟩ cs.length := by
  obtain ⟨left, hleft, hr⟩ := h
  refine ⟨left, hleft, fun rest failure => ?_⟩
  rw [fits, hr.run_eq, Nat.zero_add]

theorem fits_eq (h : MeetsEnd budget cs) (failure : Option Failure) :
    fits budget ⟨cs, failure⟩ = (failure.elim (.ok true) .error, cs.length) := by
  obtain ⟨left, hleft, hrun⟩ := h.exists_run
  have hend := hrun [] failure
  rw [List.append_nil] at hend
  rw [hend, run_nil hleft]
  cases failure <;> rfl

theorem fits_ofList (h : MeetsEnd budget cs) :
    fits budget (.ofList cs) = (.ok true, cs.length) := h.fits_eq none

theorem lt_drawn (h : MeetsEnd budget cs) (c : Command ι) :
    cs.length < (fits budget (.ofList (cs ++ [c]))).2 := by
  obtain ⟨left, hleft, hrun⟩ := h.exists_run
  rw [Feed.ofList, hrun, run_nil hleft]
  exact le_drawn left [c] ⟨[], none⟩ (cs.length + 1)

/-- The answer is open: it is yes if there is nothing more, and no if a break parent follows. -/
theorem answer_open (h : MeetsEnd budget cs) :
    (fits budget (.ofList cs)).1 = .ok true ∧ ∀ indent : ι,
      (fits budget (.ofList (cs ++ [⟨indent, .flat, .breakParent⟩]))).1 = .ok false := by
  refine ⟨congrArg Prod.fst h.fits_ofList, fun indent => ?_⟩
  obtain ⟨left, hleft, hrun⟩ := h.exists_run
  rw [Feed.ofList, hrun, run_nil hleft]
  simp only
  rw [run_cons hleft]
  rfl

theorem take (h : MeetsEnd budget cs) {k : Nat} (hk : k < cs.length) :
    MeetsEnd budget (cs.take k) := by
  obtain ⟨left, hleft, hr⟩ := h
  exact hr.before hk

end MeetsEnd

/-- An answer that is found before the end has nothing to do with what is not drawn; before each
command that is drawn it was still open. -/
theorem exists_answer (h : ¬ MeetsEnd budget cs) :
    ∃ n answer, n ≤ cs.length ∧ (∀ k < n, MeetsEnd budget (cs.take k)) ∧
      (∀ rest failure, fits budget ⟨cs.take n ++ rest, failure⟩ = (answer, n)) ∧
      ∀ rest failure, fits budget ⟨cs ++ rest, failure⟩ = (answer, n) := by
  rcases exists_reads budget [] (.ofList cs) with hend | ⟨n, b', own', answer, hn, hr, hfinds⟩
  · exact absurd hend h
  · have hreads : Reads budget [] (cs.take n) b' own' := hr
    have hlength : (cs.take n).length = n := List.length_take_of_le hn
    have hanswer (rest : List (Command ι)) (failure : Option Failure) :
        fits budget ⟨cs.take n ++ rest, failure⟩ = (answer, n) := by
      rw [fits, hreads.run_eq, hfinds.run_eq, Nat.zero_add, hlength]
    refine ⟨n, answer, hn, ?_, hanswer, ?_⟩
    · intro k hk
      obtain ⟨left, hleft, hbefore⟩ := hreads.before (k := k) (by omega)
      rw [List.take_take, Nat.min_eq_left (Nat.le_of_lt hk)] at hbefore
      exact ⟨left, hleft, hbefore⟩
    · intro rest failure
      have hall := hanswer (cs.drop n ++ rest) failure
      rwa [← List.append_assoc, List.take_append_drop] at hall

/-- **The look-ahead draws as much as it needs.**  Let it draw `n` of some commands.

* It meets their end exactly if it draws more when there is more.
* If it finds its answer before, the answer and the number stay the same whatever comes after the
  `n` commands, and however the feed stops.
* Any fewer of the commands leave the answer open: it is yes if they are all, and no if a break
  parent follows them.
* A feed that fails instead of ending makes a difference only if the end is met.  Then the answer
  would be yes, and is the failure. -/
theorem fits_on_demand (budget : Budget) (cs : List (Command ι)) :
    let n := (fits budget (.ofList cs)).2
    (∀ c, MeetsEnd budget cs ↔ cs.length < (fits budget (.ofList (cs ++ [c]))).2) ∧
      (¬ MeetsEnd budget cs → ∀ rest failure,
        fits budget ⟨cs.take n ++ rest, failure⟩ = fits budget (.ofList cs)) ∧
      (∀ k < n, (fits budget (.ofList (cs.take k))).1 = .ok true ∧ ∀ indent : ι,
        (fits budget (.ofList (cs.take k ++ [⟨indent, .flat, .breakParent⟩]))).1 = .ok false) ∧
      ∀ e,
        (MeetsEnd budget cs → (fits budget (.ofList cs)).1 = .ok true ∧
          fits budget ⟨cs, some e⟩ = (.error e, n)) ∧
        (¬ MeetsEnd budget cs → fits budget ⟨cs, some e⟩ = fits budget (.ofList cs)) := by
  intro n
  by_cases h : MeetsEnd budget cs
  · have hn : n = cs.length := congrArg Prod.snd h.fits_ofList
    refine ⟨fun c => iff_of_true h (h.lt_drawn c), fun hnot => absurd h hnot, ?_, ?_⟩
    · intro k hk
      exact (h.take (by omega)).answer_open
    · refine fun e => ⟨fun _ => ⟨h.answer_open.1, ?_⟩, fun hnot => absurd h hnot⟩
      rw [h.fits_eq, hn]
      rfl
  · obtain ⟨m, answer, hm, hbefore, hanswer, hall⟩ := exists_answer h
    have hfits (failure : Option Failure) : fits budget ⟨cs, failure⟩ = (answer, m) := by
      have hmore := hall [] failure
      rwa [List.append_nil] at hmore
    obtain rfl : n = m := congrArg Prod.snd (hfits none)
    refine ⟨fun c => iff_of_false h ?_, ?_, fun k hk => (hbefore k hk).answer_open, ?_⟩
    · rw [Feed.ofList, hall]
      exact Nat.not_lt.mpr hm
    · intro _ rest failure
      rw [hanswer, Feed.ofList, hfits]
    · refine fun e => ⟨fun hend => absurd hend h, fun _ => ?_⟩
      rw [hfits, Feed.ofList, hfits]

/-- A text, a broken separator and something that no layout can write: the look-ahead draws two of
the three, and the first of them alone leaves the answer open. -/
theorem fits_on_demand_two :
    let cs : List (Command Int) :=
      [⟨0, .flat, .ofText (Text.ofString "ab") ++ .nil⟩, ⟨0, .broken, .breakable Text.blank []⟩,
        ⟨0, .flat, .foreign "Alien" "ALIEN"⟩]
    ¬ MeetsEnd (.whole 2) cs ∧ (fits (.whole 2) (.ofList cs)).2 = 2 ∧
      (∀ rest failure,
        fits (.whole 2) ⟨cs.take 2 ++ rest, failure⟩ = fits (.whole 2) (.ofList cs)) ∧
      (fits (.whole 2) (.ofList (cs.take 1))).1 = .ok true ∧
      (fits (.whole 2) (.ofList (cs.take 1 ++ [⟨0, .flat, .breakParent⟩]))).1 = .ok false := by
  intro cs
  obtain ⟨hmeets, hlater, hopen, -⟩ := fits_on_demand (.whole 2) cs
  have hn : (fits (.whole 2) (.ofList cs)).2 = 2 := by decide +kernel
  have hmore : (fits (.whole 2) (.ofList (cs ++ [⟨0, .flat, .nil⟩]))).2 = 2 := by decide +kernel
  have hnot : ¬ MeetsEnd (.whole 2) cs := by
    rw [hmeets ⟨0, .flat, .nil⟩, hmore]
    decide
  rw [hn] at hlater hopen
  obtain ⟨hyes, hno⟩ := hopen 1 (by decide)
  exact ⟨hnot, hn, hlater hnot, hyes, hno 0⟩

end Demand

end DocLayout
