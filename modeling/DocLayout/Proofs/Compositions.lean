import DocLayout.Proofs.Columns
import DocLayout.Proofs.Upkeep

/-! # What compositions of builders produce

No composition of builders, however it calls functions and recovers from failures, makes a document
whose stored fields are wrong.

* **Documents.**  `Doc.Truthful` tells of every place in a document what the fields stored there
  have to be.  It is the same as `Doc.Consistent` (`Doc.truthful_iff_consistent`), which is told by
  recursion and kept by all builders.
* **Compositions.**  `Composed held b` : the computation `b` gets documents from builders only.  It
  may hand on those that it holds, which are those that it started with, and those in the values
  that came out of what it did before, with their parts.  Nothing is assumed of the documents
  themselves.

`Composed.truthful` says that what a composition gives is truthful, and so is what it leaves in the
store.  A composition that fails leaves such a store too. -/

namespace DocLayout

namespace Doc

/-! ### Stored fields, place by place -/

theorem hereditary_not_hasBreakParent : Hereditary fun d => ¬ d.HasBreakParent :=
  ⟨fun h hl => h (Or.inl hl), fun h hr => h (Or.inr hr), id, id⟩

theorem hasBreakParent_iff_at? (d : Doc) :
    d.HasBreakParent ↔ ∃ p, d.at? p = some .breakParent := by
  constructor
  · intro h
    induction d with
    | breakParent => exact ⟨[], rfl⟩
    | concat l r b ihl ihr =>
        rcases h with h | h
        · obtain ⟨p, hp⟩ := ihl h
          exact ⟨.left :: p, hp⟩
        · obtain ⟨p, hp⟩ := ihr h
          exact ⟨.right :: p, hp⟩
    | nest d level b ih | group d b ih =>
        obtain ⟨p, hp⟩ := ih h
        exact ⟨.inside :: p, hp⟩
    | _ => exact absurd h id
  · rintro ⟨p, hp⟩
    by_contra h
    exact hereditary_not_hasBreakParent.of_at? hp h trivial

/-- Everywhere in the document the stored fields are true.  A node forces a break if and only if a
break parent is at or below it, a width counts the bytes of a text, and a level is the current
column or adds columns. -/
structure Truthful (d : Doc) : Prop where
  forcesBreak : ∀ p e, d.at? p = some e →
    (e.forcesBreak = true ↔ ∃ q, e.at? q = some .breakParent)
  text : ∀ p t w, d.at? p = some (.text t w) → w = t.encodedBytes
  separator : ∀ p f b w, d.at? p = some (.separator f b w) → w = f.encodedBytes
  level : ∀ p body level b, d.at? p = some (.nest body level b) →
    level = .current ∨ ∃ n, level.amount? = some n ∧ 0 < n

theorem proper_iff_amount? (level : Level) :
    level.Proper ↔ level = .current ∨ ∃ n, level.amount? = some n ∧ 0 < n := by
  cases level <;> simp [Level.Proper, Level.amount?]

theorem Truthful.part {d e : Doc} (t : Turn) (hpart : ∀ p, d.at? (t :: p) = e.at? p)
    (h : d.Truthful) : e.Truthful where
  forcesBreak p f hf := h.forcesBreak (t :: p) f ((hpart p).trans hf)
  text p x w hx := h.text (t :: p) x w ((hpart p).trans hx)
  separator p f b w hf := h.separator (t :: p) f b w ((hpart p).trans hf)
  level p body v b hbody := h.level (t :: p) body v b ((hpart p).trans hbody)

theorem hereditary_truthful : Hereditary Truthful where
  left := Truthful.part .left fun _ => rfl
  right := Truthful.part .right fun _ => rfl
  nest := Truthful.part .inside fun _ => rfl
  group := Truthful.part .inside fun _ => rfl

theorem Truthful.forcesBreak_iff {d : Doc} (h : d.Truthful) :
    d.forcesBreak = true ↔ d.HasBreakParent :=
  (h.forcesBreak [] d (at?_nil d)).trans d.hasBreakParent_iff_at?.symm

/-- **Fields are true at every place** if and only if they are by recursion. -/
theorem truthful_iff_consistent (d : Doc) : d.Truthful ↔ d.Consistent := by
  constructor
  · intro h
    induction d with
    | text t w => exact (h.text [] t w rfl).trans t.byteWidth_eq_encodedBytes.symm
    | separator f b w => exact (h.separator [] f b w rfl).trans f.byteWidth_eq_encodedBytes.symm
    | concat l r b ihl ihr =>
        exact ⟨ihl (hereditary_truthful.left h), ihr (hereditary_truthful.right h),
          h.forcesBreak_iff⟩
    | nest d level b ih =>
        have hlevel := h.level [] d level b rfl
        exact ⟨ih (hereditary_truthful.nest h), (proper_iff_amount? level).mpr hlevel,
          h.forcesBreak_iff⟩
    | group d b ih => exact ⟨ih (hereditary_truthful.group h), h.forcesBreak_iff⟩
    | _ => trivial
  · intro h
    refine ⟨fun p e he => ?_, fun p t w he => ?_, fun p f b w he => ?_, fun p body level b he => ?_⟩
    · rw [← hasBreakParent_iff_at?, forcesBreak_iff (hereditary_consistent.of_at? he h)]
    · have htext : w = t.byteWidth := hereditary_consistent.of_at? he h
      exact htext.trans t.byteWidth_eq_encodedBytes
    · have hseparator : w = f.byteWidth := hereditary_consistent.of_at? he h
      exact hseparator.trans f.byteWidth_eq_encodedBytes
    · obtain ⟨-, hlevel, -⟩ : Consistent (.nest body level b) := hereditary_consistent.of_at? he h
      exact (proper_iff_amount? level).mp hlevel

end Doc

/-! ### Compositions -/

open Script

/-- The documents held once a value has come out as well, which can be taken apart. -/
def With (held : Doc → Prop) (v : Value) (d : Doc) : Prop :=
  held d ∨ ∃ e p, v.Contains e ∧ e.at? p = some d

/-- The computation gets documents from builders only.  It gives values made of documents that it
holds, hands such values to builders and to sources, and goes on with what came out, be it a value
or a failure.  Its own functions, which builders call, hold the arguments of the call as well. -/
inductive Composed : (Doc → Prop) → Build Value → Prop
  | give {held : Doc → Prop} {v : Value} : v.Within held → Composed held (pure v)
  | fail {held : Doc → Prop} (e : Failure) : Composed held (throw e)
  | call {held : Doc → Prop} (name : BuilderName) {arguments : List Value} :
      (∀ v ∈ arguments, v.Within held) → Composed held (name.call arguments)
  | surroundMany {held : Doc → Prop} {opening items closing : Value}
      {render : Value → Build Value} :
      opening.Within held → items.Within held → closing.Within held →
      (∀ v, Composed (With held v) (render v)) →
      Composed held (.doc <$> Builder.surroundMany opening items closing render)
  | foldDoc {held : Doc → Prop} {docs : Value} {folder : Value → Value → Build Value} :
      docs.Within held → (∀ v r, Composed (With (With held v) r) (folder v r)) →
      Composed held (Builder.foldDoc docs folder)
  | source {held : Doc → Prop} {feed : Feed Value} :
      (∀ v ∈ feed.items, v.Within held) →
      Composed held (.source <$> Build.addSource (.plain feed 0))
  | items {held : Doc → Prop} {v : Value} : v.Within held →
      Composed held (.list <$> Build.items v)
  | note {held : Doc → Prop} {arguments : List Value} : (∀ v ∈ arguments, v.Within held) →
      Composed held (do Build.logCall arguments; return .null)
  | bind {held : Doc → Prop} {b : Build Value} {f : Value → Build Value} : Composed held b →
      (∀ v, Composed (With held v) (f v)) → Composed held (b >>= f)
  | recover {held : Doc → Prop} {b : Build Value} {f : Failure → Build Value} : Composed held b →
      (∀ e, Composed held (f e)) → Composed held (tryCatch b f)

theorem within_with (held : Doc → Prop) (v : Value) : v.Within (With held v) :=
  fun d hd => Or.inr ⟨d, [], hd, Doc.at?_nil d⟩

theorem within_with_of_held {held : Doc → Prop} {w : Value} (h : w.Within held) (v : Value) :
    w.Within (With held v) := fun d hd => Or.inl (h d hd)

theorem consistent_with {held : Doc → Prop} (hheld : ∀ d, held d → d.Consistent) {v : Value}
    (hv : v.Within Doc.Consistent) (d : Doc) (hd : With held v d) : d.Consistent := by
  rcases hd with hd | ⟨e, p, he, hp⟩
  · exact hheld d hd
  · exact Doc.hereditary_consistent.of_at? hp (hv e he)

/-- **A composition that holds consistent documents keeps documents consistent.** -/
theorem Composed.keeps {held : Doc → Prop} {b : Build Value} (h : Composed held b)
    (hheld : ∀ d, held d → d.Consistent) :
    b.Keeps Doc.Consistent (Value.Within Doc.Consistent) := by
  have hwithin {held : Doc → Prop} {v : Value} (hheld : ∀ d, held d → d.Consistent)
      (hv : v.Within held) : v.Within Doc.Consistent := fun d hd => hheld d (hv d hd)
  induction h with
  | give hv => exact Build.keeps_pure (hwithin hheld hv)
  | fail e => exact Build.keeps_throw e
  | call name harguments => exact name.keeps_call fun v hv => hwithin hheld (harguments v hv)
  | surroundMany hopening hitems hclosing _ ih =>
      exact (Builder.keeps_surroundMany (hwithin hheld hopening) (hwithin hheld hitems)
        (hwithin hheld hclosing) fun v hv => ih v (consistent_with hheld hv)).doc
  | foldDoc hdocs _ ih =>
      exact Builder.keeps_foldDoc (hwithin hheld hdocs) fun v r hv hr =>
        ih v r (consistent_with (consistent_with hheld hv) hr)
  | @source _ feed hfeed =>
      have hsource : (Source.plain feed 0).Within Doc.Consistent :=
        fun v hv => hwithin hheld (hfeed v hv)
      exact (Build.keeps_addSource hsource).map fun _ _ => nofun
  | items hv =>
      exact (Build.keeps_items (hwithin hheld hv)).map fun _ hvs => Value.within_list.mpr hvs
  | note harguments =>
      exact (Build.keeps_logCall fun v hv => hwithin hheld (harguments v hv)).bind fun _ _ =>
        Build.keeps_pure nofun
  | bind _ _ ihb ihf => exact (ihb hheld).bind fun v hv => ihf v (consistent_with hheld hv)
  | recover _ _ ihb ihf => exact (ihb hheld).tryCatch fun e => ihf e hheld

/-- **The fields stored in what a composition produces are true**, everywhere in each document.  It
starts without any documents except those without parts that exist once.  What it gives is truthful.
So is what sources have still to give and what functions were called with, also if it fails. -/
theorem Composed.truthful {b : Build Value} (h : Composed (fun d => d.isUnique = true) b) :
    (∀ v, (b.outcome .empty).1 = .ok v → v.Within Doc.Truthful) ∧
      (b.outcome .empty).2.Within Doc.Truthful := by
  have hsame : Doc.Truthful = Doc.Consistent :=
    funext fun d => propext d.truthful_iff_consistent
  have hempty : Store.empty.Within Doc.Consistent := ⟨nofun, by simp [Store.empty]⟩
  rw [hsame]
  exact h.keeps (fun _ hd => Doc.consistent_of_isUnique hd) .empty hempty

/-- A list whose items are grouped by a function, which replaces an item that is no document, glued
to a text by a function that aligns the whole.  The break parent in it is seen from the outside. -/
theorem Composed.truthful_aligned :
    let accent := Value.string "é"
    let render (v : Value) : Build Value :=
      tryCatch (BuilderName.group.call [v]) fun _ => BuilderName.text.call [accent]
    let folder (v r : Value) : Build Value :=
      BuilderName.glue.call [v, r] >>= fun body => BuilderName.nest.call [body, .current]
    let b : Build Value :=
      (.doc <$> Builder.surroundMany (.string "[") (.list [.integer 7, .doc .breakParent])
        (.string "]") render) >>= fun listed => Builder.foldDoc (.list [listed, accent]) folder
    let text := Doc.ofText (Text.ofString "é")
    let listed := Builder.enclosed (.literal (Text.ofString "[")) (.literal (Text.ofString "]"))
      [text, Doc.breakParent.grouped]
    let aligned := (listed ++ (Builder.blankSeparator ++ text)).nested .current
    Composed (fun d => d.isUnique = true) b ∧ (b.outcome .empty).1 = .ok (.doc aligned) ∧
      aligned.Truthful ∧ aligned.forcesBreak = true ∧
      aligned.at? [.inside, .right, .right] = some (.text (Text.ofString "é") 2) := by
  intro accent render folder b text listed aligned
  have hrender (v : Value) : Composed (With (fun d => d.isUnique = true) v) (render v) := by
    refine .recover (.call .group ?_) fun e => .call .text ?_
    · exact List.forall_mem_singleton.mpr (within_with _ v)
    · exact List.forall_mem_singleton.mpr (Value.within_text _)
  have hfolder (held : Doc → Prop) (v r : Value) :
      Composed (With (With held v) r) (folder v r) := by
    refine .bind (.call .glue ?_) fun body => .call .nest ?_
    · exact Value.within_pair (within_with_of_held (within_with held v) r) (within_with _ r)
    · exact Value.within_pair (within_with _ body) nofun
  have hcomposed : Composed (fun d => d.isUnique = true) b := by
    refine .bind (.surroundMany (Value.within_text _) ?_ (Value.within_text _) hrender) fun v =>
      .foldDoc ?_ fun v r => hfolder _ v r
    · have hparent : (Value.doc .breakParent).Within fun d => d.isUnique = true :=
        Value.within_doc.mpr rfl
      exact Value.within_list.mpr (Value.within_pair nofun hparent)
    · exact Value.within_list.mpr (Value.within_pair (within_with _ v) (Value.within_text _))
  have hlisted : (Builder.surroundMany (.string "[") (.list [.integer 7, .doc .breakParent])
      (.string "]") render).Gives listed :=
    Builder.gives_surroundMany rfl rfl (Build.gives_items_list _)
      (.cons ⟨.doc text, fun _ => rfl, rfl⟩
        (.cons ⟨.doc Doc.breakParent.grouped, fun _ => rfl, rfl⟩ .nil))
  have hfolded : (Builder.foldDoc (.list [.doc listed, accent]) folder).Gives (.doc aligned) := by
    rw [Builder.foldDoc_list]
    exact fun _ => rfl
  have hgives : (b.outcome .empty).1 = .ok (.doc aligned) :=
    ((hlisted.map Value.doc).bind hfolded) .empty
  obtain ⟨htruthful, -⟩ := Composed.truthful hcomposed
  exact ⟨hcomposed, hgives, Value.within_doc.mp (htruthful _ hgives), rfl, rfl⟩

end DocLayout
