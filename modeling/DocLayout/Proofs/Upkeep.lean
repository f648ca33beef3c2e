import DocLayout.Doc.Shape
import DocLayout.Proofs.Folding
import DocLayout.Proofs.Surrounding
import DocLayout.Proofs.Within
import DocLayout.Script.Builder
import DocLayout.Value.Table

/-! # Builders keep documents consistent

The layout trusts what is stored in a document.  A builder that is handed consistent documents gives
a consistent one, whatever it draws and whatever it calls.

* **Values.**  `Value.ensures_toDoc` : what a value stands for.
* **Documents of documents.**  One lemma for each builder that neither draws nor calls, and one for
  all of them by name (`BuilderName.ensures_apply`).
* **Items and calls.**  `Builder.keeps_concatItems` and its companions.  A function that is called
  may do anything that keeps the store consistent (`Builder.keeps_surroundMany`,
  `Builder.keeps_foldDoc`); the functions of scripts do (`Value.keeps_call`).
* `BuilderName.keeps_call` : so every builder does. -/

namespace DocLayout

open Doc

/-! ### Values and lists of documents -/

theorem ensures_true {α : Type} (r : Except Failure α) : Ensures (fun _ => True) r :=
  fun _ _ => trivial

theorem Value.ensures_toDoc {v : Value} (hv : v.Within Consistent) :
    Ensures Consistent v.toDoc := by
  cases v with
  | doc d => exact ensures_ok (within_doc.mp hv)
  | text t => exact ensures_ok (consistent_literal t)
  | _ => exact ensures_error _

theorem Ensures.doc {r : Except Failure Doc} (h : Ensures Consistent r) :
    Ensures (Value.Within Consistent) (.doc <$> r : Except Failure Value) :=
  h.map fun _ hd => Value.within_doc.mpr hd

theorem Build.Keeps.doc {b : Build Doc} (h : b.Keeps Consistent Consistent) :
    (.doc <$> b : Build Value).Keeps Consistent (Value.Within Consistent) :=
  h.map fun _ hd => Value.within_doc.mpr hd

namespace Doc

theorem consistent_of_isUnique {d : Doc} (h : d.isUnique = true) : d.Consistent := by
  cases d with
  | nil | line | breakParent | foreign _ _ => trivial
  | _ => cases h

theorem consistent_foldl {f : Doc → Doc → Doc}
    (hf : ∀ d e, d.Consistent → e.Consistent → (f d e).Consistent) {d : Doc} {ds : List Doc}
    (hd : d.Consistent) (hds : ∀ d ∈ ds, d.Consistent) : (ds.foldl f d).Consistent :=
  List.foldlRecOn ds _ hd fun acc hacc e he => hf acc e hacc (hds e he)

theorem consistent_concatAll {ds : List Doc} (h : ∀ d ∈ ds, d.Consistent) :
    (concatAll ds).Consistent := by
  cases ds with
  | nil => trivial
  | cons d ds =>
      obtain ⟨hd, hds⟩ := List.forall_mem_cons.mp h
      exact consistent_foldl (fun _ _ => consistent_append) hd hds

end Doc

namespace Builder

variable {a b c v level : Value}

theorem consistent_blankSeparator : blankSeparator.Consistent := consistent_breakable _ _

theorem consistent_commaJoined {d : Doc} {ds : List Doc} (hd : d.Consistent)
    (hds : ∀ d ∈ ds, d.Consistent) : (commaJoined d ds).Consistent := by
  refine consistent_foldl (fun acc e hacc he => ?_) hd hds
  exact consistent_append (consistent_append hacc (consistent_literal _))
    (consistent_append consistent_blankSeparator he)

/-! ### Documents of documents -/

theorem ensures_text (v : Value) : Ensures Consistent (text v) := by
  cases v with
  | text t => exact ensures_ok (consistent_ofText t)
  | _ => exact ensures_error _

theorem ensures_separator (flat broken : Value) : Ensures Consistent (separator flat broken) :=
  (ensures_true _).bind fun f _ => (ensures_true _).bind fun b _ =>
    ensures_ok (consistent_breakable f b)

theorem ensures_concat (ha : a.Within Consistent) (hb : b.Within Consistent) :
    Ensures Consistent (concat a b) :=
  (Value.ensures_toDoc ha).bind fun _ hl => (Value.ensures_toDoc hb).bind fun _ hr =>
    ensures_ok (consistent_append hl hr)

theorem ensures_nest (hv : v.Within Consistent) (level : Value) :
    Ensures Consistent (nest v level) := by
  refine (Value.ensures_toDoc hv).bind fun d hd => ?_
  cases level with
  | current => exact ensures_ok (consistent_nested hd trivial)
  | integer n =>
      simp only
      split_ifs with hnegative hzero
      · exact ensures_error _
      · exact ensures_ok hd
      · have hpositive : 0 < n.toNat := by omega
        exact ensures_ok (consistent_nested hd hpositive)
  | _ => exact ensures_error _

theorem ensures_group (hv : v.Within Consistent) : Ensures Consistent (group v) :=
  (Value.ensures_toDoc hv).bind fun _ hd => ensures_ok (consistent_grouped hd)

theorem ensures_around (ha : a.Within Consistent) {d : Doc} (hd : d.Consistent)
    (hb : b.Within Consistent) : Ensures Consistent (around a d b) :=
  (Value.ensures_toDoc hb).bind fun _ hr => (Value.ensures_toDoc ha).bind fun _ hl =>
    ensures_ok (consistent_append hl (consistent_append hd hr))

theorem ensures_glue (ha : a.Within Consistent) (hb : b.Within Consistent) :
    Ensures Consistent (glue a b) :=
  ensures_around ha consistent_blankSeparator hb

theorem ensures_glueWith (ha : a.Within Consistent) (sep : Value) (hb : b.Within Consistent) :
    Ensures Consistent (glueWith a sep b) := by
  cases sep with
  | text t => exact ensures_around ha (consistent_breakable t []) hb
  | _ => exact ensures_error _

theorem ensures_surround (ha : a.Within Consistent) (hv : v.Within Consistent)
    (hb : b.Within Consistent) : Ensures Consistent (surround a v b) :=
  (ensures_nest hv _).bind fun _ hbody => (Value.ensures_toDoc hb).bind fun _ hr =>
    (Value.ensures_toDoc ha).bind fun _ hl =>
      ensures_ok (consistent_grouped (consistent_append hl (consistent_append hbody hr)))

namespace Node

theorem ensures_part (hv : v.Within Consistent) : Ensures Consistent (part v) := by
  cases v with
  | doc d => exact ensures_ok (Value.within_doc.mp hv)
  | _ => exact ensures_error _

theorem ensures_text (v : Value) : Ensures Consistent (text v) :=
  (ensures_true _).bind fun t _ => ensures_ok (consistent_ofText t)

theorem ensures_concat (ha : a.Within Consistent) (hb : b.Within Consistent) :
    Ensures Consistent (concat a b) :=
  (ensures_part ha).bind fun _ hl => (ensures_part hb).bind fun _ hr =>
    ensures_ok (consistent_append hl hr)

theorem proper_of_properLevel? {l : Level} (h : level.properLevel? = some l) : l.Proper := by
  unfold Value.properLevel? at h
  split at h
  · obtain rfl := Option.some.inj h
    trivial
  · obtain rfl := Option.some.inj h
    exact Nat.succ_pos _
  · obtain rfl := Option.some.inj h
    trivial
  · cases h

theorem ensures_nest (hv : v.Within Consistent) (level : Value) :
    Ensures Consistent (nest v level) := by
  refine (ensures_part hv).bind fun d hd => ?_
  cases hl : level.properLevel? with
  | none => exact ensures_error _
  | some l => exact ensures_ok (consistent_nested hd (proper_of_properLevel? hl))

theorem ensures_group (hv : v.Within Consistent) : Ensures Consistent (group v) :=
  (ensures_part hv).bind fun _ hd => ensures_ok (consistent_grouped hd)

end Node

end Builder

open Script

/-- **Builders that neither draw nor call** give consistent documents of consistent ones. -/
theorem Script.BuilderName.ensures_apply (name : BuilderName) {arguments : List Value}
    (h : ∀ v ∈ arguments, v.Within Consistent) : Ensures Consistent (name.apply arguments) := by
  fun_cases BuilderName.apply name arguments with
  | case1 v => exact Builder.ensures_text v
  | case2 v => exact Value.ensures_toDoc (h v (by simp))
  | case3 a b => exact Builder.ensures_concat (h a (by simp)) (h b (by simp))
  | case4 => exact ensures_ok trivial
  | case5 => exact ensures_ok Builder.consistent_blankSeparator
  | case6 flat => exact Builder.ensures_separator flat _
  | case7 flat broken => exact Builder.ensures_separator flat broken
  | case8 => exact ensures_ok trivial
  | case9 body level => exact Builder.ensures_nest (h body (by simp)) level
  | case10 body => exact Builder.ensures_group (h body (by simp))
  | case11 a b => exact Builder.ensures_glue (h a (by simp)) (h b (by simp))
  | case12 a sep b => exact Builder.ensures_glueWith (h a (by simp)) sep (h b (by simp))
  | case13 a body b =>
      exact Builder.ensures_surround (h a (by simp)) (h body (by simp)) (h b (by simp))
  | case14 => exact ensures_ok trivial
  | case15 a b =>
      exact Builder.ensures_around (h a (by simp)) (consistent_literal _) (h b (by simp))
  | case16 a b => exact Builder.ensures_around (h a (by simp)) trivial (h b (by simp))
  | case17 v => exact Builder.Node.ensures_text v
  | case18 a b => exact Builder.Node.ensures_concat (h a (by simp)) (h b (by simp))
  | case19 body level => exact Builder.Node.ensures_nest (h body (by simp)) level
  | case20 flat broken => exact Builder.ensures_separator flat broken
  | case21 body => exact Builder.Node.ensures_group (h body (by simp))
  | case22 => exact ensures_error _

/-! ### Functions -/

theorem UnaryFunction.ensures_apply (f : UnaryFunction) {v : Value} (hv : v.Within Consistent) :
    Ensures (Value.Within Consistent) (f.apply v) := by
  have hends (s : String) : (Value.string s).Within Consistent := Value.within_text _
  cases f with
  | display => exact ensures_ok (Value.within_text _)
  | identity => exact ensures_ok hv
  | text => exact (Builder.ensures_text v).doc
  | group => exact (Builder.ensures_group hv).doc
  | brackets => exact (Builder.ensures_surround (hends "[") hv (hends "]")).doc
  | twice => exact (Builder.ensures_glue hv hv).doc
  | align => exact (Builder.ensures_nest hv .current).doc
  | null => exact ensures_ok nofun
  | empty => exact ensures_ok (Value.within_text [])

theorem BinaryFunction.ensures_apply (f : BinaryFunction) {a b : Value}
    (ha : a.Within Consistent) (hb : b.Within Consistent) :
    Ensures (Value.Within Consistent) (f.apply a b) := by
  cases f with
  | concat => exact (Builder.ensures_concat ha hb).doc
  | glue => exact (Builder.ensures_glue ha hb).doc
  | space => exact (Builder.ensures_around ha (consistent_literal _) hb).doc
  | lineJoin => exact (Builder.ensures_around ha (consistent_of_isUnique rfl) hb).doc
  | groupGlue =>
      exact (Builder.ensures_glue ha hb).bind fun d hd =>
        ensures_ok (Value.within_doc.mpr (consistent_grouped hd))
  | commaGlue =>
      exact (Builder.ensures_concat ha (Value.within_text _)).bind fun d hd =>
        (Builder.ensures_glue (Value.within_doc.mpr hd) hb).doc
  | nestGlue =>
      exact (Builder.ensures_glue ha hb).bind fun d hd =>
        (Builder.ensures_nest (Value.within_doc.mpr hd) _).doc
  | first => exact ensures_ok ha
  | second => exact ensures_ok hb
  | pair => exact ensures_ok (Value.within_list.mpr (Value.within_pair ha hb))

theorem Function.ensures_apply (f : Function) {arguments : List Value}
    (h : ∀ v ∈ arguments, v.Within Consistent) :
    Ensures (Value.Within Consistent) (f.apply arguments) := by
  fun_cases Function.apply f arguments with
  | case1 f v => exact f.ensures_apply (h v (by simp))
  | case2 f a b => exact f.ensures_apply (h a (by simp)) (h b (by simp))
  | case3 | case4 => exact ensures_error _

theorem Value.keeps_call (v : Value) {arguments : List Value}
    (h : ∀ v ∈ arguments, v.Within Consistent) :
    (v.call arguments).Keeps Consistent (Value.Within Consistent) := by
  fun_cases Value.call v arguments with
  | case1 f =>
      exact (Build.keeps_logCall h).bind fun _ _ => Build.keeps_ofExcept (f.ensures_apply h)
  | case2 => exact Build.keeps_throw _

/-! ### Items -/

namespace Builder

variable {docs items opening closing sep : Value} {render : Value → Build Value}
  {folder : Value → Value → Build Value}

theorem keeps_concatItems (hdocs : docs.Within Consistent) :
    (concatItems docs).Keeps Consistent Consistent := by
  unfold concatItems
  split
  · exact Build.keeps_throw _
  · cases hc : docs.cursor? with
    | none => exact Build.keeps_throw _
    | some c =>
        exact (Build.keeps_collect (fun _ hv => Value.ensures_toDoc hv) (hdocs.cursor hc)).bind
          fun ds hds => Build.keeps_pure (consistent_concatAll hds)

theorem keeps_renderItems {vs : List Value} (hvs : ∀ v ∈ vs, v.Within Consistent)
    (hrender : ∀ v, v.Within Consistent →
      (render v).Keeps Consistent (Value.Within Consistent)) :
    (renderItems render vs).Keeps Consistent fun ds => ∀ d ∈ ds, d.Consistent := by
  induction vs with
  | nil => exact Build.keeps_pure nofun
  | cons v vs ih =>
      obtain ⟨hv, hvs'⟩ := List.forall_mem_cons.mp hvs
      exact (hrender v hv).bind fun w hw =>
        (Build.keeps_ofExcept (Value.ensures_toDoc hw)).bind fun d hd =>
          (ih hvs').bind fun ds hds => Build.keeps_pure (List.forall_mem_cons.mpr ⟨hd, hds⟩)

theorem ensures_between (hopening : opening.Within Consistent)
    (hclosing : closing.Within Consistent) {ds : List Doc} (hds : ∀ d ∈ ds, d.Consistent) :
    Ensures Consistent (between opening closing ds) := by
  cases ds with
  | nil => exact ensures_concat hopening hclosing
  | cons d ds =>
      obtain ⟨hd, hds'⟩ := List.forall_mem_cons.mp hds
      have hbody := Value.within_doc.mpr (consistent_commaJoined hd hds')
      exact ensures_surround hopening hbody hclosing

/-- **Items between two ends**, each rendered by a function that keeps documents consistent. -/
theorem keeps_surroundMany (hopening : opening.Within Consistent)
    (hitems : items.Within Consistent) (hclosing : closing.Within Consistent)
    (hrender : ∀ v, v.Within Consistent →
      (render v).Keeps Consistent (Value.Within Consistent)) :
    (surroundMany opening items closing render).Keeps Consistent Consistent := by
  rw [surroundMany_eq]
  exact (Build.keeps_items hitems).bind fun vs hvs =>
    (keeps_renderItems hvs hrender).bind fun ds hds =>
      Build.keeps_ofExcept (ensures_between hopening hclosing hds)

/-- **Items folded from the right** by a function that keeps documents consistent. -/
theorem keeps_foldDoc (hdocs : docs.Within Consistent)
    (hfolder : ∀ v r, v.Within Consistent → r.Within Consistent →
      (folder v r).Keeps Consistent (Value.Within Consistent)) :
    (foldDoc docs folder).Keeps Consistent (Value.Within Consistent) := by
  refine (Build.keeps_items hdocs).bind fun vs hvs => ?_
  have hreverse : ∀ v ∈ vs.reverse, v.Within Consistent :=
    fun v hv => hvs v (List.mem_reverse.mp hv)
  generalize vs.reverse = ws at hreverse
  cases ws with
  | nil => exact Build.keeps_pure (Value.within_doc.mpr trivial)
  | cons last before =>
      obtain ⟨hlast, hbefore⟩ := List.forall_mem_cons.mp hreverse
      exact (Build.keeps_ofExcept (Value.ensures_toDoc hlast)).bind fun d hd =>
        Build.keeps_foldlM hbefore (fun r v hr hv => hfolder v r hv hr) (Value.within_doc.mpr hd)

theorem keeps_intersperse (hsep : sep.Within Consistent) (hitems : items.Within Consistent) :
    (intersperse sep items).Keeps Consistent (Value.Within Consistent) :=
  have hsource : (Source.interspersed sep (.fresh items)).Within Consistent := ⟨hsep, hitems⟩
  (Build.keeps_addSource hsource).bind fun _ _ => Build.keeps_pure nofun

theorem keeps_join (hsep : sep.Within Consistent) (hdocs : docs.Within Consistent) :
    (join sep docs).Keeps Consistent Consistent :=
  (keeps_intersperse hsep hdocs).bind fun _ hv => keeps_concatItems hv

end Builder

/-- **Every builder** gives what is consistent and leaves what is consistent, if its arguments
are. -/
theorem Script.BuilderName.keeps_call (name : BuilderName) {arguments : List Value}
    (h : ∀ v ∈ arguments, v.Within Consistent) :
    (name.call arguments).Keeps Consistent (Value.Within Consistent) := by
  fun_cases BuilderName.call name arguments with
  | case1 docs => exact (Builder.keeps_concatItems (h docs (by simp))).doc
  | case2 a items b render =>
      refine (Builder.keeps_surroundMany (h a (by simp)) (h items (by simp)) (h b (by simp)) ?_).doc
      exact fun v hv => render.keeps_call (List.forall_mem_singleton.mpr hv)
  | case3 docs folder =>
      refine Builder.keeps_foldDoc (h docs (by simp)) fun v r hv hr => ?_
      exact folder.keeps_call (Value.within_pair hv hr)
  | case4 sep docs => exact (Builder.keeps_join (h sep (by simp)) (h docs (by simp))).doc
  | case5 docs => exact (Builder.keeps_join (Value.within_text _) (h docs (by simp))).doc
  | case6 docs =>
      have hline : (Value.doc .line).Within Consistent :=
        Value.within_doc.mpr (consistent_of_isUnique rfl)
      exact (Builder.keeps_join hline (h docs (by simp))).doc
  | case7 sep items => exact Builder.keeps_intersperse (h sep (by simp)) (h items (by simp))
  | case8 =>
      exact (Build.keeps_ofExcept (name.ensures_apply h)).bind fun d hd =>
        Build.keeps_pure (Value.within_doc.mpr hd)

end DocLayout
