import CilMetadata.Proofs.ModuleImage.Columns
import CilMetadata.Proofs.ModuleImage.Entities
import CilMetadata.Session.Image

/-!
# Sessions in front of a module image

What a session in front of an image can come to, whatever it is asked.  The image only ever gets
types; entities are added that were not asked anything; a request to an entity changes this entity
and nothing else.

* `leaves_request`: what one request leaves;
* `fits_run`: the rows of the entities are those of the table, in every run.
-/

namespace CilMetadata.Session

/-- What a session in front of an image can be asked, the image included. -/
inductive Request where
  | any (op : Op)
  | image (op : ImageOp)

def request (build : Build) : Request → Session ModuleImage → (Answer ⊕ ImageAnswer) × Session ModuleImage
  | .any op, s =>
    let (a, s') := step build op s
    (.inl a, s')
  | .image op, s =>
    let (a, s') := imageStep build op s
    (.inr a, s')

/-- How the image of a session can change: it may be dropped or get a type. -/
inductive Changes : Option ModuleImage → Option ModuleImage → Prop
  | same (owner : Option ModuleImage) : Changes owner owner
  | dropped (owner : Option ModuleImage) : Changes owner none
  | typed (m : ModuleImage) (t : CilType) : Changes (some m) (some (m.insertType t))

/-- What is known of a session in front of an image: only the types of the image may differ by now,
and the entities fit the table. -/
structure Fits (build : Build) (m : ModuleImage) (s : Session ModuleImage) : Prop where
  owner : ∀ m', s.owner = some m' → m' = { m with types := m'.types }
  entities : ∀ e ∈ s.entities, e.Fits build m.interfaceImpls

variable {build : Build} {m : ModuleImage} {s : Session ModuleImage}

theorem fits_start (build : Build) (m : ModuleImage) : (start (some m)).Fits build m where
  owner m' h := by
    cases h
    rfl
  entities e he := nomatch he

theorem Fits.table (h : s.Fits build m) : ∀ m', s.owner = some m' → m'.interfaceImpls = m.interfaceImpls := by
  intro m' hm
  rw [h.owner m' hm]

/-! ### What a request leaves -/

/-- What a request can leave: some fresh entities more, or one entity that was asked. -/
inductive Leaves (build : Build) (m : ModuleImage) (s : Session ModuleImage) (q : Request)
    (s' : Session ModuleImage) : Prop
  | made (es : List (InterfaceImpl ModuleImage)) (hes : ∀ e ∈ es, e.Fresh build m.interfaceImpls)
    (he : s'.entities = s.entities ++ es) (ho : Changes s.owner s'.owner)
  | asked (n : Nat) (op : InterfaceImpl.Op) (e : InterfaceImpl ModuleImage)
    (hq : q = .any (.entity n op)) (hn : s.entities[n]? = some e)
    (he : s'.entities = s.entities.set n (InterfaceImpl.step op (e, s.owner)).2.1)
    (ho : s'.owner = s.owner)

theorem leaves_same (m : ModuleImage) (s : Session ModuleImage) (q : Request) : Leaves build m s q s :=
  .made [] (fun _ he => nomatch he) (List.append_nil _).symm (.same _)

theorem leaves_add (q : Request) {e : InterfaceImpl ModuleImage} (h : e.Fresh build m.interfaceImpls) :
    Leaves build m s q (s.add e).2 := by
  refine .made [e] ?_ rfl (.same _)
  intro e' he'
  rw [List.mem_singleton.mp he']
  exact h

theorem leaves_addRow (h : s.Fits build m) (q : Request) (mode : ValidationMode) (rid : UInt32) :
    Leaves build m s q (s.addRow build mode rid).2 := by
  obtain ⟨ho, hfresh⟩ := InterfaceImpl.fresh_ofRow build mode rid h.table
  unfold addRow
  cases hr : InterfaceImpl.ofRow build mode rid s.owner with
  | mk r owner =>
    rw [hr] at ho hfresh
    cases ho
    cases r with
    | ok e => exact leaves_add q (hfresh e rfl)
    | error e => exact leaves_same m s q

theorem fresh_entitiesOf {m' : ModuleImage} (h : m'.interfaceImpls = m.interfaceImpls)
    {rids : List UInt32} {es : List (InterfaceImpl ModuleImage)} (hes : m'.entitiesOf build rids = .ok es) :
    ∀ e ∈ es, e.Fresh build m.interfaceImpls := by
  induction rids generalizing es with
  | nil =>
    cases hes
    exact fun e he => nomatch he
  | cons rid rids ih =>
    have howner : ∀ m'', some m' = some m'' → m''.interfaceImpls = m.interfaceImpls := by
      intro m'' hm
      cases hm
      exact h
    have hfresh := (InterfaceImpl.fresh_ofRow build m'.validation rid howner).2
    obtain ⟨e, he, hes⟩ := Error.exists_of_bind_ok hes
    obtain ⟨rest, hrest, hes⟩ := Error.exists_of_bind_ok hes
    cases hes
    intro x hx
    rcases List.mem_cons.mp hx with rfl | hx
    · exact hfresh _ he
    · exact ih hrest x hx

theorem leaves_step (h : s.Fits build m) (op : Op) : Leaves build m s (.any op) (step build op s).2 := by
  cases op with
  | author => exact leaves_add _ (.authored none none)
  | link c i => exact leaves_add _ (.authored (some c) (some i))
  | fromRow rid mode => exact leaves_addRow h _ mode rid
  | dropSource =>
    exact .made [] (fun _ he => nomatch he) (List.append_nil _).symm (.dropped _)
  | isValidRid t rid =>
    obtain ⟨owner, entities⟩ := s
    cases owner with
    | none => exact leaves_same m _ _
    | some m' =>
      show Leaves build m _ _ ⟨some (Source.isValidRid t rid m').2, entities⟩
      rw [ModuleImage.isValidRid_state]
      exact leaves_same m _ _
  | call c =>
    obtain ⟨owner, entities⟩ := s
    cases owner with
    | none => exact leaves_same m _ _
    | some m' =>
      show Leaves build m _ _ ⟨some (Source.call c m').2, entities⟩
      rw [ModuleImage.call_state]
      exact leaves_same m _ _
  | entity n op =>
    cases hn : s.entities[n]? with
    | none =>
      simp only [step, hn]
      exact leaves_same m s _
    | some e =>
      have he : e ∈ s.entities := List.mem_of_getElem? hn
      refine .asked n op e rfl hn ?_ ?_
      · simp only [step, hn]
      · simp only [step, hn]
        exact InterfaceImpl.owner_step (h.entities e he) op s.owner

theorem leaves_imageStep (h : s.Fits build m) (op : ImageOp) :
    Leaves build m s (.image op) (imageStep build op s).2 := by
  obtain ⟨owner, entities⟩ := s
  cases owner with
  | none => exact leaves_same m _ _
  | some m' =>
    have htable := h.table m' rfl
    cases op with
    | bind rid => exact leaves_addRow h _ m'.validation rid
    | bindAll =>
      cases hes : m'.allEntities build with
      | error e =>
        simp only [imageStep, hes]
        exact leaves_same m _ _
      | ok es =>
        simp only [imageStep, hes]
        exact .made es (fresh_entitiesOf htable hes) rfl (.same _)
    | insertType t =>
      exact .made [] (fun _ he => nomatch he) (List.append_nil _).symm (.typed m' t)
    | sizes => exact leaves_same m _ _
    | findType k => exact leaves_same m _ _
    | types => exact leaves_same m _ _

/-- **One request.**  It adds fresh entities, or it changes the one entity that it asks. -/
theorem leaves_request (h : s.Fits build m) (q : Request) : Leaves build m s q (request build q s).2 := by
  cases q with
  | any op => exact leaves_step h op
  | image op => exact leaves_imageStep h op

theorem fits_changes {owner owner' : Option ModuleImage} (hc : Changes owner owner')
    (h : ∀ m', owner = some m' → m' = { m with types := m'.types }) :
    ∀ m', owner' = some m' → m' = { m with types := m'.types } := by
  intro m' hm'
  cases hc with
  | same owner => exact h m' hm'
  | dropped owner => cases hm'
  | typed m₁ t =>
    cases hm'
    have h₁ := h m₁ rfl
    unfold ModuleImage.insertType
    rw [h₁]

theorem fits_request (q : Request) (s : Session ModuleImage) (h : s.Fits build m) :
    (request build q s).2.Fits build m := by
  cases leaves_request h q with
  | made es hes he ho =>
    refine ⟨fits_changes ho h.owner, fun e hmem => ?_⟩
    rw [he] at hmem
    rcases List.mem_append.mp hmem with hmem | hmem
    · exact h.entities e hmem
    · exact (hes e hmem).fits
  | asked n op e hq hn he ho =>
    refine ⟨fun m' hm' => h.owner m' (ho ▸ hm'), fun e' hmem => ?_⟩
    rw [he] at hmem
    rcases List.mem_or_eq_of_mem_set hmem with hmem | rfl
    · exact h.entities e' hmem
    · exact InterfaceImpl.fits_step (h.entities e (List.mem_of_getElem? hn)) h.table op

/-- **Runs.**  Whatever a session is asked, its entities fit the table of its image. -/
theorem fits_run (build : Build) (m : ModuleImage) (qs : List Request) :
    (run (request build) qs (start (some m))).2.Fits build m :=
  run_preserves fits_request qs (fits_start build m)

end CilMetadata.Session
