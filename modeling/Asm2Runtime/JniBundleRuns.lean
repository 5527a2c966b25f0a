import Asm2Runtime.JniBundleMap
import Mathlib.Algebra.BigOperators.Finprod

/-!
# Bundles through both sides

Every operation of the bridge does on the maps what its call says and returns what its side
shows of the answer; a run is then a run of the maps.
-/

namespace Asm2Runtime.Jni

open JniUtf BlockAccess KeyedChain Transition EventLog

section Arguments

@[simp] theorem JniValue.ofL_l (l : Pointer) : (JniValue.ofL l).l = l := by
  simp [JniValue.ofL, JniValue.l]

@[simp] theorem JniValue.ofI_i (i : BitVec 32) : (JniValue.ofI i).i = i := by
  simp [JniValue.ofI, JniValue.i]

@[simp] theorem JniValue.ofI_z (i : BitVec 32) : (JniValue.ofI i).z = i.setWidth 8 := by
  simp [JniValue.ofI, JniValue.z]

@[simp] theorem JniValue.ofZ_z (z : BitVec 8) : (JniValue.ofZ z).z = z := by
  simp [JniValue.ofZ, JniValue.z]

@[simp] theorem JniValue.ofJ_j (j : BitVec 64) : (JniValue.ofJ j).j = j := rfl

theorem setWidth_append {a b : Nat} (high : BitVec a) (low : BitVec b) :
    (high ++ low).setWidth b = low := by
  ext i hi
  simp [BitVec.getLsbD_append, hi]

@[simp] theorem Argument.store_object (rest : JniValue) (l : Pointer) :
    ((Argument.object l).store rest).l = l :=
  setWidth_append (rest.extractLsb' 32 32) l

@[simp] theorem Argument.store_int (rest : JniValue) (i : BitVec 32) :
    ((Argument.int i).store rest).i = i :=
  setWidth_append (rest.extractLsb' 32 32) i

@[simp] theorem Argument.store_boolean (rest : JniValue) (z : BitVec 8) :
    ((Argument.boolean z).store rest).i.setWidth 8 = z := by
  have hlow := setWidth_append (rest.extractLsb' 8 56) z
  simpa [JniValue.i, Argument.store] using hlow

variable (convention : Convention) (key : Pointer)

theorem firstObject_pass (values : List Argument) :
    ∃ first, firstObject (convention.pass (.object key :: values)) = some first ∧ first.l = key := by
  cases convention with
  | list => exact ⟨.ofL key, rfl, JniValue.ofL_l key⟩
  | array rest => exact ⟨_, rfl, Argument.store_object (rest 0) key⟩

theorem secondInt_pass_int (i : BitVec 32) :
    secondInt (convention.pass [.object key, .int i]) = some (.ofI i) := by
  cases convention with
  | list => rfl
  | array rest => exact congrArg (some ∘ JniValue.ofI) (Argument.store_int (rest 1) i)

theorem secondInt_pass_boolean (z : BitVec 8) :
    ∃ input, secondInt (convention.pass [.object key, .boolean z]) = some input ∧ input.z = z := by
  cases convention with
  | list => exact ⟨.ofI (z.setWidth 32), rfl, by simp⟩
  | array rest =>
    refine ⟨.ofI ((Argument.boolean z).store (rest 1)).i, rfl, ?_⟩
    rw [JniValue.ofI_z, Argument.store_boolean]

theorem secondLong_pass (j : BitVec 64) :
    secondLong (convention.pass [.object key, .long j]) = some (.ofJ j) := by
  cases convention <;> rfl

theorem secondObject_pass (l : Pointer) :
    secondObject (convention.pass [.object key, .object l]) = some (.ofL l) := by
  cases convention with
  | list => rfl
  | array rest => exact congrArg (some ∘ JniValue.ofL) (Argument.store_object (rest 1) l)

end Arguments

section Sides

variable {t : Table} {e e' : Env} {reply : Reply} {bundle : Pointer} {key : Option CString}

/-- An operation has done what its call says. -/
structure Effect (operation : Operation) (e : Env) (reply : Reply) (e' : Env) : Prop where
  sound : e'.table.Sound
  bundles : bundlesOf e'.table =
    match operation.bundleCall e.table with
    | some call => call.apply (bundlesOf e.table)
    | none => bundlesOf e.table
  reply : ∀ call, operation.bundleCall e.table = some call →
    reply = operation.shows e.table (call.answer (bundlesOf e.table))

theorem Content.of_kind (kind : BundleValueKind) (value : JniValue) :
    (Content.of kind value).kind = kind := by
  cases kind <;> rfl

theorem Content.of_zero (kind : BundleValueKind) : Content.of kind zeroValue = .zero kind := by
  cases kind <;> rfl

theorem Content.of_int (i : BitVec 32) : Content.of .int (.ofI i) = .int i :=
  congrArg Content.int (JniValue.ofI_i i)

theorem Content.of_object (l : Pointer) : Content.of .object (.ofL l) = .object l :=
  congrArg Content.object (JniValue.ofL_l l)

theorem filter_content (kind stored : BundleValueKind) (value : JniValue) :
    (some (Content.of stored value)).filter (fun content => content.kind = kind) =
      if stored = kind then some (Content.of stored value) else none := by
  simp [Option.filter, Content.of_kind]

/-- What is stored under a kind, and a zero otherwise. -/
theorem storedOr_content (h : t.Sound) (bundle : Pointer) (key : Option CString)
    (kind : BundleValueKind) :
    Content.of kind (storedOr (bundleGet bundle key t) kind) =
      (((bundlesOf t).lookup bundle key).filter fun content => content.kind = kind).getD
        (.zero kind) := by
  rw [← h.bundleGet bundle key]
  cases bundleGet bundle key t with
  | none => exact Content.of_zero kind
  | some found =>
    obtain ⟨stored, value⟩ := found
    rw [Option.map_some, filter_content]
    by_cases hkind : stored = kind
    · subst hkind
      simp [storedOr]
    · simp [storedOr, hkind, Content.of_zero]

theorem bundleGetKind_content (h : t.Sound) (bundle : Pointer) (key : Option CString)
    (kind : BundleValueKind) (out : Bool) :
    (bundleGetKind bundle key kind out t).map (Content.of kind) =
      if out then ((bundlesOf t).lookup bundle key).filter fun content => content.kind = kind
      else none := by
  rw [← h.bundleGet bundle key]
  unfold bundleGetKind
  cases out with
  | false => rfl
  | true =>
    simp only [if_true]
    cases bundleGet bundle key t with
    | none => rfl
    | some found =>
      obtain ⟨stored, value⟩ := found
      rw [Option.map_some, filter_content]
      by_cases hkind : stored = kind
      · subst hkind
        simp
      · simp [hkind]

/-- A put, after the handles have grown. -/
theorem effect_put {items : List Pointer} {operation : Operation} {content : Content}
    {kind : BundleValueKind} {value : JniValue} (hgrows : Grows items e.table t)
    (hcall : operation.bundleCall e.table = some (.put bundle key content))
    (hcontent : Content.of kind value = content)
    (hreply : reply = operation.shows e.table (.accepted (bundleSet bundle key kind value t).1))
    (pending : Pointer) :
    Effect operation e reply { table := (bundleSet bundle key kind value t).2, pending } := by
  obtain ⟨hsound, hbundles, hok⟩ := hgrows.sound.bundleSet bundle key kind value
  refine ⟨hsound, ?_, fun call hcall' => ?_⟩
  · rw [hcall, ← hcontent, ← hgrows.bundles]
    exact hbundles
  · rw [hcall] at hcall'
    cases hcall'
    rw [hreply, hok, hgrows.bundles]
    rfl

/-- An operation that only reads. -/
theorem effect_read {operation : Operation} {call : BundleCall} (h : e.table.Sound)
    (hcall : operation.bundleCall e.table = some call)
    (happly : call.apply (bundlesOf e.table) = bundlesOf e.table)
    (hreply : reply = operation.shows e.table (call.answer (bundlesOf e.table))) :
    Effect operation e reply e := by
  refine ⟨h, ?_, fun call' hcall' => ?_⟩
  · rw [hcall]
    exact happly.symm
  · rw [hcall] at hcall'
    cases hcall'
    exact hreply

/-- An operation on other handles. -/
theorem effect_other {items : List Pointer} {operation : Operation}
    (hgrows : Grows items e.table e'.table) (hcall : operation.bundleCall e.table = none) :
    Effect operation e reply e' := by
  refine ⟨hgrows.sound, ?_, fun call hcall' => ?_⟩
  · rw [hcall]
    exact hgrows.bundles
  · rw [hcall] at hcall'
    cases hcall'

theorem copyBytes_length {bytes : Option (Nat → Byte)} {count : Nat}
    {data data' : Option (List Byte)} {contents : List Byte}
    (h : copyBytes bytes count data = some data') (hcontents : data' = some contents) :
    ∃ old, data = some old ∧ contents.length = old.length := by
  subst hcontents
  cases bytes with
  | none => exact ⟨contents, Option.some.inj h, rfl⟩
  | some bytes =>
    obtain ⟨hsome, hlength, -⟩ := writeBlock_outside h
    cases data with
    | none => cases hsome
    | some old => exact ⟨old, rfl, hlength⟩

theorem newByteArray_grows {item outOfMemory : Pointer} (h : e.table.Sound)
    (hfresh : e.table.FreshAll [item, outOfMemory]) (count : BitVec 32) (allocated : Bool) :
    Grows [item, outOfMemory] e.table
        (newArray item outOfMemory (literal "[B") count 1 allocated e).table ∧
      (newArray item outOfMemory (literal "[B") count 1 allocated e).table.heap item =
        some (arrayHandle (literal "[B") count 1 allocated) :=
  h.newArray hfresh (literal "[B") count .byte allocated

theorem HostCall.effect {call : HostCall} (h : e.table.Sound)
    (hfresh : e.table.FreshAll call.items)
    (hperform : call.perform bundle key e = some (reply, e')) :
    Effect (.host bundle key call) e reply e' := by
  cases call with
  | putBoolean value =>
    cases hperform
    refine effect_put (Grows.refl h []) rfl ?_ rfl _
    simp only [Content.of, JniValue.ofZ_z]
    split <;> simp_all
  | putInt value =>
    cases hperform
    exact effect_put (Grows.refl h []) rfl (Content.of_int value) rfl _
  | putLong value =>
    cases hperform
    exact effect_put (Grows.refl h []) rfl rfl rfl _
  | putString item value =>
    cases hperform
    unfold bundlePutString
    cases value with
    | none => exact effect_put (Grows.refl h []) rfl rfl rfl _
    | some value =>
      obtain ⟨hgrows, -⟩ := h.internString (hfresh.2 item (by simp [HostCall.items])) (some value)
      exact effect_put hgrows rfl (Content.of_object _) rfl _
  | putByteArray item outOfMemory bytes count allocated =>
    simp only [HostCall.perform, Option.bind_eq_bind, Option.bind_eq_some_iff] at hperform
    obtain ⟨⟨ok, e''⟩, hput, hreply⟩ := hperform
    cases hreply
    obtain ⟨hgrows, hitem⟩ := newByteArray_grows h hfresh count allocated
    unfold bundlePutByteArray at hput
    dsimp only at hput
    rw [hitem, Option.bind_some] at hput
    change (if count ≠ 0 ∧ arrayData count 1 allocated = none then _ else _) = _ at hput
    split at hput
    · rename_i hfailed
      cases hput
      exact effect_other hgrows (if_pos hfailed)
    · rename_i hmade
      have hcall : (Operation.host bundle key (.putByteArray item outOfMemory bytes count
          allocated)).bundleCall e.table = some (.put bundle key (.object item)) := if_neg hmade
      obtain ⟨data, hwrite, hput⟩ := Option.bind_eq_some_iff.mp hput
      cases hput
      have hsize : ∀ contents : List Byte, data = some contents →
          contents.length = (arrayHandle (literal "[B") count 1 allocated).length *
            (arrayHandle (literal "[B") count 1 allocated).elementSize ∧
              contents.length < 2 ^ 32 := by
        intro contents hdata
        obtain ⟨old, hold, hlength⟩ := copyBytes_length hwrite hdata
        rw [hlength]
        exact arrayData_length hold
      have hstored := hgrows.modify_data (f := fun handle => { handle with data }) (p := item)
        (by simp) (hfresh.2 item (by simp [HostCall.items])).free hitem rfl hsize
      exact effect_put hstored hcall (Content.of_object item) rfl _
  | getBoolean out =>
    cases hperform
    refine effect_read h rfl rfl (congrArg Reply.content ?_)
    have hget := bundleGetKind_content h bundle key .boolean out
    rw [← hget, bundleGetBoolean, Option.map_map]
    congr 1
    funext stored
    simp only [Function.comp_apply, Content.of]
    split <;> simp_all
  | getInt out =>
    cases hperform
    refine effect_read h rfl rfl (congrArg Reply.content ?_)
    have hget := bundleGetKind_content h bundle key .int out
    rw [← hget, bundleGetInt, Option.map_map]
    rfl
  | getLong out =>
    cases hperform
    refine effect_read h rfl rfl (congrArg Reply.content ?_)
    have hget := bundleGetKind_content h bundle key .long out
    rw [← hget, bundleGetLong, Option.map_map]
    rfl
  | getString =>
    cases hperform
    refine effect_read h rfl rfl (congrArg Reply.text ?_)
    have hget := bundleGetKind_content h bundle key .object true
    rw [if_pos rfl] at hget
    rw [← hget, bundleGetString, Option.bind_map]
    rfl

/-- A branch of `asm2_default_method` that puts its second argument. -/
def runPut (receiver : Pointer) (arguments : Arguments) (t : Table) (kind : BundleValueKind)
    (second : Arguments → Option JniValue) : Option (JniValue × Table) :=
  (firstObject arguments).bind fun first =>
    (second arguments).bind fun input =>
      some (zeroValue, (bundleSet receiver (stringChars t first.l) kind input t).2)

/-- A branch of `asm2_default_method` that reads the entry of the key. -/
def runGet (receiver : Pointer) (arguments : Arguments) (t : Table)
    (result : Option (BundleValueKind × JniValue) → JniValue) : Option (JniValue × Table) :=
  (firstObject arguments).bind fun first =>
    some (result (bundleGet receiver (stringChars t first.l) t), t)

/-- The branch for each method. -/
def Method.run (receiver : Pointer) (arguments : Arguments) (t : Table) :
    Method → Option (JniValue × Table)
  | .putInt _ => runPut receiver arguments t .int secondInt
  | .putBoolean _ => runPut receiver arguments t .boolean secondInt
  | .putLong _ => runPut receiver arguments t .long secondLong
  | .putString _ => runPut receiver arguments t .object secondObject
  | .putByteArray _ => runPut receiver arguments t .object secondObject
  | .getInt => runGet receiver arguments t fun found => .ofI (storedOr found .int).i
  | .getBoolean => runGet receiver arguments t fun found => .ofZ (storedOr found .boolean).z
  | .getLong => runGet receiver arguments t fun found => .ofJ (storedOr found .long).j
  | .getString => runGet receiver arguments t fun found => .ofL (storedOr found .object).l
  | .getByteArray => runGet receiver arguments t fun found => .ofL (storedOr found .object).l
  | .containsKey => runGet receiver arguments t fun found => .ofZ (if found.isSome then 1 else 0)
  | .clear => some (zeroValue, bundleClear receiver t)

theorem bundleMethod_name (method : Method) (receiver : Pointer) (arguments : Arguments) (t : Table) :
    bundleMethod method.name receiver arguments t = method.run receiver arguments t := by
  cases method <;> simp +decide only [bundleMethod, Method.name, if_true, if_false] <;> rfl

variable {receiver keyReference : Pointer} {convention : Convention} {method : Method}
  {values : List Argument}

theorem runPut_effect {kind : BundleValueKind} {second : Arguments → Option JniValue}
    {value : JniValue} {content : Content} {result : JniValue} (h : e.table.Sound)
    (hsecond : second (convention.pass (.object keyReference :: values)) = some value)
    (hcontent : Content.of kind value = content)
    (hcall : method.bundleCall receiver (stringChars e.table keyReference) =
      .put receiver (stringChars e.table keyReference) content)
    (hdone : ∀ result, method.reply result = .done)
    (hshows : ∀ ok, method.shows (.accepted ok) = .done)
    (hrun : runPut receiver (convention.pass (.object keyReference :: values)) e.table kind second =
      some (result, t)) :
    Effect (.guest receiver keyReference method convention) e (method.reply result)
      { e with table := t } := by
  obtain ⟨first, hfirst, hkey⟩ := firstObject_pass convention keyReference values
  unfold runPut at hrun
  rw [hfirst, hsecond, Option.bind_some, Option.bind_some, hkey] at hrun
  obtain ⟨rfl, rfl⟩ := Prod.mk.inj (Option.some.inj hrun)
  have hput : (Operation.guest receiver keyReference method convention).bundleCall e.table =
      some (.put receiver (stringChars e.table keyReference) content) := congrArg some hcall
  exact effect_put (Grows.refl h []) hput hcontent ((hdone _).trans (hshows _).symm) _

theorem runGet_effect (result : Option (BundleValueKind × JniValue) → JniValue)
    (values : List Argument) {value : JniValue} {call : BundleCall} (h : e.table.Sound)
    (hcall : method.bundleCall receiver (stringChars e.table keyReference) = call)
    (happly : call.apply (bundlesOf e.table) = bundlesOf e.table)
    (hreply : method.reply (result (bundleGet receiver (stringChars e.table keyReference) e.table)) =
      method.shows (call.answer (bundlesOf e.table)))
    (hrun : runGet receiver (convention.pass (.object keyReference :: values)) e.table result =
      some (value, t)) :
    Effect (.guest receiver keyReference method convention) e (method.reply value)
      { e with table := t } := by
  obtain ⟨first, hfirst, hkey⟩ := firstObject_pass convention keyReference values
  unfold runGet at hrun
  rw [hfirst, Option.bind_some, hkey] at hrun
  obtain ⟨rfl, rfl⟩ := Prod.mk.inj (Option.some.inj hrun)
  exact effect_read h (congrArg some hcall) happly hreply

theorem Method.effect (h : e.table.Sound)
    (hperform : (Operation.guest receiver keyReference method convention).perform e =
      some (reply, e')) :
    Effect (.guest receiver keyReference method convention) e reply e' := by
  simp only [Operation.perform, bundleMethod_name, Option.bind_eq_bind,
    Option.bind_eq_some_iff] at hperform
  obtain ⟨⟨value, table⟩, hrun, hreply⟩ := hperform
  cases hreply
  cases method with
  | clear =>
    cases hrun
    obtain ⟨hsound, hbundles⟩ := h.bundleClear receiver
    exact ⟨hsound, hbundles, fun call hcall => by cases hcall; rfl⟩
  | putInt i =>
    exact runPut_effect h (secondInt_pass_int convention keyReference i) (Content.of_int i) rfl
      (fun _ => rfl) (fun _ => rfl) hrun
  | putLong j =>
    exact runPut_effect h (secondLong_pass convention keyReference j) rfl rfl
      (fun _ => rfl) (fun _ => rfl) hrun
  | putBoolean z =>
    obtain ⟨input, hinput, hz⟩ := secondInt_pass_boolean convention keyReference z
    refine runPut_effect h hinput ?_ rfl (fun _ => rfl) (fun _ => rfl) hrun
    rw [← hz]
    rfl
  | putString l =>
    exact runPut_effect h (secondObject_pass convention keyReference l) (Content.of_object l) rfl
      (fun _ => rfl) (fun _ => rfl) hrun
  | putByteArray l =>
    exact runPut_effect h (secondObject_pass convention keyReference l) (Content.of_object l) rfl
      (fun _ => rfl) (fun _ => rfl) hrun
  | getInt =>
    refine runGet_effect (fun found => .ofI (storedOr found .int).i) [] h rfl rfl ?_ hrun
    have hget := storedOr_content h receiver (stringChars e.table keyReference) .int
    refine congrArg (Reply.content ∘ some) (Eq.trans ?_ hget)
    rw [JniValue.ofI_i]
    rfl
  | getLong =>
    refine runGet_effect (fun found => .ofJ (storedOr found .long).j) [] h rfl rfl ?_ hrun
    exact congrArg (Reply.content ∘ some)
      (storedOr_content h receiver (stringChars e.table keyReference) .long)
  | getBoolean =>
    refine runGet_effect (fun found => .ofZ (storedOr found .boolean).z) [] h rfl rfl ?_ hrun
    have hget := storedOr_content h receiver (stringChars e.table keyReference) .boolean
    refine congrArg (Reply.content ∘ some) (Eq.trans ?_ hget)
    rw [JniValue.ofZ_z]
    rfl
  | getString | getByteArray =>
    refine runGet_effect (fun found => .ofL (storedOr found .object).l) [] h rfl rfl ?_ hrun
    have hget := storedOr_content h receiver (stringChars e.table keyReference) .object
    refine congrArg (Reply.content ∘ some) (Eq.trans ?_ hget)
    rw [JniValue.ofL_l]
    rfl
  | containsKey =>
    refine runGet_effect (fun found => .ofZ (if found.isSome then 1 else 0)) [] h rfl rfl ?_ hrun
    have hget := h.bundleGet receiver (stringChars e.table keyReference)
    refine congrArg Reply.present ?_
    rw [← hget, JniValue.ofZ_z, Option.isSome_map]
    split <;> simp_all

end Sides

section Operations

variable {t : Table} {e e' : Env} {reply : Reply} {operation : Operation} {item : Pointer}

/-- A new handle of the class of Bundles is an empty Bundle. -/
theorem store_bundle {handle : Handle} (h : t.Sound) (hfresh : t.Fresh item)
    (hvalid : handle.Valid) (hbundle : isBundle handle) (hentries : handle.bundleEntries = []) :
    (storeHandle item handle t).Sound ∧
      bundlesOf (storeHandle item handle t) = (BundleCall.create item).apply (bundlesOf t) := by
  refine ⟨h.store hfresh hvalid hentries, ?_⟩
  rw [bundlesOf_update (fun q => congrFun (storeHandle_heap item handle t) q), if_pos hbundle,
    hentries]
  rfl

theorem Request.handle_entries (r : Request) : r.handle.bundleEntries = [] := by
  cases r with
  | string text =>
    unfold Request.handle Handle.fillUtf16
    split <;> rfl
  | _ => rfl

theorem intern_effect {call : Call} (h : e.table.Sound) (hfresh : e.table.Fresh item) :
    Effect (.intern item call) e (.pointer ((call.request e.table).answer item e.table).1)
      { e with table := ((call.request e.table).answer item e.table).2 } := by
  by_cases hcreate : findIntern e.table (call.request e.table).bucket (call.request e.table).same =
      none ∧ isBundle (call.request e.table).handle
  · have hcall : (Operation.intern item call).bundleCall e.table = some (.create item) :=
      if_pos hcreate
    obtain ⟨hsound, hbundles⟩ := store_bundle h hfresh (call.request e.table).handle_valid
      hcreate.2 (call.request e.table).handle_entries
    have htable : ((call.request e.table).answer item e.table).2 =
        publishIntern item (call.request e.table).bucket
          (storeHandle item (call.request e.table).handle e.table) := by
      rw [Request.answer_eq, hcreate.1]
    refine ⟨?_, ?_, fun call' _ => rfl⟩
    · rw [htable]
      exact hsound.of_fields rfl rfl rfl rfl rfl
    · rw [hcall, htable]
      exact hbundles
  · have hcall : (Operation.intern item call).bundleCall e.table = none := if_neg hcreate
    obtain ⟨hgrows, -⟩ := h.answer hfresh (call.request e.table) fun hnone => by
      simpa using fun hbundle => hcreate ⟨hnone, hbundle⟩
    exact effect_other hgrows hcall

theorem newBundle_effect (h : e.table.Sound) (hfresh : e.table.Fresh item) :
    Effect (.newBundle item) e (.pointer item) { e with table := newBundle item e.table } := by
  have hname : classOrObject (some bundleName) = bundleName := by decide
  have htable : newBundle item e.table =
      storeHandle item (newHandle .object (some bundleName)) e.table := by
    rw [newBundle, newObjectHandle, hname, allocateHandle_store]
  obtain ⟨hsound, hbundles⟩ := store_bundle h hfresh
    (Handle.Valid.new .object (some bundleName) (by simp) (by simp)) (by decide) rfl
  rw [htable]
  exact ⟨hsound, hbundles, fun call hcall => by cases hcall; rfl⟩

theorem runPut_isSome {receiver key : Pointer} {convention : Convention} {values : List Argument}
    {kind : BundleValueKind} {second : Arguments → Option JniValue} {value : JniValue}
    (hsecond : second (convention.pass (.object key :: values)) = some value) :
    (runPut receiver (convention.pass (.object key :: values)) t kind second).isSome := by
  obtain ⟨first, hfirst, -⟩ := firstObject_pass convention key values
  rw [runPut, hfirst, hsecond]
  rfl

theorem runGet_isSome {receiver key : Pointer} {convention : Convention} {values : List Argument}
    {result : Option (BundleValueKind × JniValue) → JniValue} :
    (runGet receiver (convention.pass (.object key :: values)) t result).isSome := by
  obtain ⟨first, hfirst, -⟩ := firstObject_pass convention key values
  rw [runGet, hfirst]
  rfl

/-- No method reads arguments that were not passed. -/
theorem Method.run_isSome (method : Method) (receiver key : Pointer) (convention : Convention) :
    (method.run receiver (convention.pass (method.arguments key)) t).isSome := by
  cases method with
  | clear => rfl
  | putInt i => exact runPut_isSome (secondInt_pass_int convention key i)
  | putLong j => exact runPut_isSome (secondLong_pass convention key j)
  | putBoolean z =>
    obtain ⟨input, hinput, -⟩ := secondInt_pass_boolean convention key z
    exact runPut_isSome hinput
  | putString l => exact runPut_isSome (secondObject_pass convention key l)
  | putByteArray l => exact runPut_isSome (secondObject_pass convention key l)
  | _ =>
    dsimp only [Method.run, Method.arguments]
    exact runGet_isSome

/-- A new array has room for its bytes. -/
theorem bundlePutByteArray_isSome {outOfMemory : Pointer} (h : e.table.Sound)
    (hfresh : e.table.FreshAll [item, outOfMemory]) (bundle : Pointer) (key : Option CString)
    (bytes : Option (Nat → Byte)) (count : BitVec 32) (allocated : Bool) :
    (bundlePutByteArray item outOfMemory bundle key bytes count allocated e).isSome := by
  obtain ⟨-, hitem⟩ := newByteArray_grows h hfresh count allocated
  unfold bundlePutByteArray
  dsimp only
  rw [hitem, Option.bind_some]
  split
  · rfl
  · rename_i hmade
    have hcopy : (copyBytes bytes count.toNat
        (arrayHandle (literal "[B") count 1 allocated).data).isSome := by
      cases bytes with
      | none => rfl
      | some bytes =>
        rw [copyBytes, writeBlock_isSome]
        by_cases hcount : count = 0
        · exact Or.inl (by simp [hcount])
        · obtain ⟨contents, hdata⟩ := Option.ne_none_iff_exists'.mp fun hnone =>
            hmade ⟨hcount, hnone⟩
          have hlength := (arrayData_length hdata).1
          refine Or.inr ⟨contents, hdata, ?_⟩
          rw [hlength]
          simp
    obtain ⟨data, hdata⟩ := Option.isSome_iff_exists.mp hcopy
    rw [hdata]
    rfl

/-- A call on a Bundle is always defined. -/
theorem Operation.perform_isSome (h : e.table.Sound) (hfresh : e.table.FreshAll operation.items)
    (hcall : (operation.bundleCall e.table).isSome) : (operation.perform e).isSome := by
  cases operation with
  | guest receiver key method convention =>
    obtain ⟨result, hresult⟩ := Option.isSome_iff_exists.mp
      (method.run_isSome (t := e.table) receiver key convention)
    simp only [Operation.perform, bundleMethod_name, hresult]
    rfl
  | host bundle key call =>
    cases call with
    | putByteArray item outOfMemory bytes count allocated =>
      obtain ⟨result, hresult⟩ := Option.isSome_iff_exists.mp
        (bundlePutByteArray_isSome h hfresh bundle key bytes count allocated)
      simp only [Operation.perform, HostCall.perform, hresult]
      rfl
    | _ => rfl
  | intern item call => rfl
  | newBundle item => rfl
  | _ => cases hcall

/-- An operation that stores in an array. -/
theorem effect_store {array : Pointer} {handle : Handle} {offset : Nat} {values : List Byte}
    {data : Option (List Byte)} (h : e.table.Sound) (hp : e.table.heap array = some handle)
    (hwrite : writeBlock handle.data offset values = some data)
    (hcall : operation.bundleCall e.table = none) :
    Effect operation e reply (storeData array data e) := by
  obtain ⟨hsound, hbundles⟩ := h.storeData (e := e) hp hwrite
  refine ⟨hsound, ?_, fun call hcall' => ?_⟩
  · rw [hcall]
    exact hbundles
  · rw [hcall] at hcall'
    cases hcall'

theorem exists_of_element {array : Option Handle} {index : BitVec 32}
    (h : ¬ elementRejected array index) : ∃ handle, array = some handle := by
  cases array with
  | none => exact absurd rfl h
  | some handle => exact ⟨handle, rfl⟩

theorem exists_of_region {size : BitVec 32} {array : Option Handle} {start length : BitVec 32}
    {buffer : Bool} (h : ¬ regionRejected size array start length buffer) :
    ∃ handle, array = some handle := by
  cases array with
  | none => exact absurd rfl h
  | some handle => exact ⟨handle, rfl⟩

/-- Every operation does on the maps what its call says. -/
theorem Operation.effect (h : e.table.Sound) (hfresh : e.table.FreshAll operation.items)
    (hperform : operation.perform e = some (reply, e')) : Effect operation e reply e' := by
  cases operation with
  | intern item call =>
    cases hperform
    exact intern_effect h (hfresh.2 item (by simp [Operation.items]))
  | newBundle item =>
    cases hperform
    exact newBundle_effect h (hfresh.2 item (by simp [Operation.items]))
  | host bundle key call => exact HostCall.effect h hfresh hperform
  | guest receiver key method convention => exact Method.effect h hperform
  | newString item classItem throwable unicode length =>
    simp only [Operation.perform, Jni.newString] at hperform
    split at hperform
    · cases hperform
      exact effect_other (h.throwClass hfresh.tail _ _).1 rfl
    · split at hperform
      · cases hperform
        have hitem : e.table.Fresh item := hfresh.2 item (by simp [Operation.items])
        exact effect_other (h.internString hitem _).1 rfl
      · cases hperform
  | newPrimitiveArray type item outOfMemory length allocated =>
    cases hperform
    exact effect_other (h.newPrimitiveArray hfresh type length allocated) rfl
  | newObjectArray item outOfMemory length classHandle initial allocated =>
    cases hperform
    exact effect_other (h.newObjectArray hfresh length classHandle initial allocated) rfl
  | getElement classItem throwable array index =>
    simp only [Operation.perform, getObjectArrayElement] at hperform
    split at hperform
    · cases hperform
      exact effect_other (h.throwClass hfresh _ _).1 rfl
    · simp only [Option.bind_eq_bind, Option.bind_eq_some_iff] at hperform
      obtain ⟨_, ⟨bytes, -, hbytes⟩, hreply⟩ := hperform
      cases hbytes
      cases hreply
      exact effect_other (Grows.refl h []) rfl
  | setElement classItem throwable array index value =>
    simp only [Operation.perform, setObjectArrayElement] at hperform
    split at hperform
    · cases hperform
      exact effect_other (h.throwClass hfresh _ _).1 rfl
    · rename_i haccepted
      simp only [Option.bind_eq_bind, Option.bind_eq_some_iff] at hperform
      obtain ⟨_, ⟨data, hwrite, hdata⟩, hreply⟩ := hperform
      cases hdata
      cases hreply
      obtain ⟨handle, hhandle⟩ := exists_of_element haccepted
      rw [hhandle, Option.bind_some] at hwrite
      rw [h.chained.handleAt] at hhandle
      exact effect_store h hhandle hwrite rfl
  | getRegion type classItem throwable array start length output =>
    simp only [Operation.perform, getArrayRegion] at hperform
    split at hperform
    · cases hperform
      exact effect_other (h.throwClass hfresh _ _).1 rfl
    · simp only [Option.bind_eq_bind, Option.bind_eq_some_iff] at hperform
      obtain ⟨_, ⟨bytes, -, hbytes⟩, hreply⟩ := hperform
      cases hbytes
      cases hreply
      exact effect_other (Grows.refl h []) rfl
  | setRegion type classItem throwable array start length input =>
    simp only [Operation.perform, setArrayRegion] at hperform
    split at hperform
    · cases hperform
      exact effect_other (h.throwClass hfresh _ _).1 rfl
    · rename_i haccepted
      simp only [Option.bind_eq_bind, Option.bind_eq_some_iff] at hperform
      obtain ⟨_, ⟨data, hwrite, hdata⟩, hreply⟩ := hperform
      cases hdata
      cases hreply
      obtain ⟨handle, hhandle⟩ := exists_of_region haccepted
      rw [hhandle, Option.bind_some] at hwrite
      rw [h.chained.handleAt] at hhandle
      exact effect_store h hhandle hwrite rfl

end Operations

section Runs

variable {s s' : Bridge} {t : Table}

/-- The maps after the calls of a history. -/
def mapsAfter (history : List Observation) : Bundles :=
  history.foldl (fun maps o => o.call.apply maps) fun _ => none

theorem mapsAfter_append (history more : List Observation) :
    mapsAfter (history ++ more) = more.foldl (fun maps o => o.call.apply maps) (mapsAfter history) :=
  List.foldl_append

/-- The bridge agrees with the maps, and so did every answer. -/
structure Bridge.Refines (s : Bridge) : Prop where
  sound : s.table.Sound
  maps : bundlesOf s.table = mapsAfter s.history
  answers : Throughout (fun before o => o.reply = o.shows (o.call.answer (mapsAfter before))) s.history

theorem refines_empty : emptyBridge.Refines :=
  ⟨sound_empty, rfl, Throughout.nil _⟩

theorem Bridge.Refines.step (h : s.Refines) {event : Thread × Operation}
    (hstep : s.step event = some s') : s'.Refines := by
  obtain ⟨thread, operation⟩ := event
  simp only [Bridge.step] at hstep
  split at hstep
  · rename_i hfresh
    simp only [Option.bind_eq_bind, Option.bind_eq_some_iff] at hstep
    obtain ⟨⟨reply, e⟩, hperform, hstep⟩ := hstep
    cases hstep
    have heffect : Effect operation { table := s.table, pending := s.pending thread } reply e :=
      Operation.effect h.sound hfresh hperform
    have hbundles := heffect.bundles
    cases hcall : operation.bundleCall s.table with
    | none =>
      simp only [hcall] at hbundles
      refine ⟨heffect.sound, ?_, ?_⟩
      · simp only [List.append_nil]
        exact hbundles.trans h.maps
      · simp only [List.append_nil]
        exact h.answers
    | some call =>
      simp only [hcall] at hbundles
      have hreply := heffect.reply call hcall
      rw [h.maps] at hbundles hreply
      refine ⟨heffect.sound, ?_, ?_⟩
      · simp only [mapsAfter_append, List.foldl_cons, List.foldl_nil]
        exact hbundles
      · exact h.answers.snoc hreply
  · cases hstep

theorem refines_of_run {events : List (Thread × Operation)}
    (hrun : run Bridge.step emptyBridge events = some s) : s.Refines :=
  run_invariant (fun _ _ _ hs hstep => hs.step hstep) refines_empty hrun

/-- The number of keys of a Bundle's map. -/
noncomputable def mapSize (m : Option BundleMap) : Nat :=
  match m with
  | some m => {k | (m k).isSome}.ncard
  | none => 0

theorem Table.Sound.mapSize (h : t.Sound) (p : Pointer) :
    Jni.mapSize (bundlesOf t p) = (entriesAt t p).length := by
  unfold bundlesOf entriesAt
  cases hp : t.heap p with
  | none => rfl
  | some handle =>
    have hvalid := h.valid p handle hp
    by_cases hbundle : isBundle handle
    · have hcard := (hvalid.unique.ncard entryContent).2
      simpa [Jni.mapSize, hbundle] using hcard
    · have hnil : handle.bundleEntries = [] := by
        by_contra hne
        exact hbundle (hvalid.bundle hne)
      simp [Jni.mapSize, hbundle, hnil]

/-- The counter of the entries is the number of keys of all Bundles. -/
theorem Table.Sound.entries_sum (h : t.Sound) :
    t.stats.bundleEntries = ∑ᶠ p, Jni.mapSize (bundlesOf t p) := by
  have hsupport : (Function.support fun p => Jni.mapSize (bundlesOf t p)) ⊆
      (t.handles.toFinset : Set Pointer) := by
    intro p hp
    rw [Finset.mem_coe, List.mem_toFinset, h.chained.allocated]
    by_contra hfree
    rw [Option.not_isSome_iff_eq_none] at hfree
    exact hp (by simp [bundlesOf, hfree, Jni.mapSize])
  rw [finsum_eq_sum_of_support_subset _ hsupport, h.entries, entryCount]
  exact Finset.sum_congr rfl fun p _ => (h.mapSize p).symm

/-- In every run the Bundles are the maps that the calls of both sides make, whatever the
arguments, and every answer is the maps' answer; a call on a Bundle is always defined. The
chains have one entry for each key, and the counter is the sum of the maps' sizes. -/
theorem bundles_refine {events : List (Thread × Operation)}
    (hrun : run Bridge.step emptyBridge events = some s) :
    bundlesOf s.table = mapsAfter s.history ∧
      (∀ before o later, s.history = before ++ o :: later →
        o.reply = o.shows (o.call.answer (mapsAfter before))) ∧
      (∀ thread operation, (operation.bundleCall s.table).isSome →
        s.table.FreshAll operation.items → (s.step (thread, operation)).isSome) ∧
      (∀ p handle, s.table.heap p = some handle →
        (handle.bundleEntries.map BundleEntry.key).Nodup ∧
          ∀ entry ∈ handle.bundleEntries, entry.key.bytes ≠ []) ∧
      (∀ p m, bundlesOf s.table p = some m → {k | (m k).isSome}.Finite) ∧
      s.table.stats.bundleEntries = ∑ᶠ p, mapSize (bundlesOf s.table p) := by
  have h := refines_of_run hrun
  refine ⟨h.maps, h.answers, fun thread operation hcall hfresh => ?_, fun p handle hp => ?_,
    fun p m hm => ?_, h.sound.entries_sum⟩
  · have hperform := Operation.perform_isSome (e := ⟨s.table, s.pending thread⟩) h.sound hfresh hcall
    obtain ⟨result, hresult⟩ := Option.isSome_iff_exists.mp hperform
    simp only [Bridge.step, if_pos hfresh, hresult]
    rfl
  · have hvalid := h.sound.valid p handle hp
    exact ⟨hvalid.unique, hvalid.keys⟩
  · obtain ⟨handle, hp, hmap⟩ := Option.bind_eq_some_iff.mp hm
    split at hmap
    · cases hmap
      exact ((h.sound.valid p handle hp).unique.ncard entryContent).1
    · cases hmap

/-- Both sides at one key of one Bundle, with both conventions. -/
def sharedKey : List (Thread × Operation) :=
  [(0, .newBundle 16), (0, .intern 32 (.string (some textX))),
    (1, .guest 16 32 (.putInt 7) (.array fun _ => 0xffffffffffffffff)),
    (0, .host 16 (some textX) (.getInt true)), (0, .host 16 (some textX) (.putBoolean 5)),
    (1, .guest 16 32 .getInt .list), (1, .guest 16 32 .getBoolean .list)]

theorem bundles_refine_sharedKey : ∃ s, run Bridge.step emptyBridge sharedKey = some s ∧
    s.history.map Observation.reply =
      [.pointer 16, .done, .content (some (.int 7)), .accepted true, .content (some (.int 0)),
        .content (some (.boolean true))] ∧
    bundlesOf s.table = mapsAfter s.history ∧
      (∀ before o later, s.history = before ++ o :: later →
        o.reply = o.shows (o.call.answer (mapsAfter before))) ∧
      (∀ thread operation, (operation.bundleCall s.table).isSome →
        s.table.FreshAll operation.items → (s.step (thread, operation)).isSome) ∧
      (∀ p handle, s.table.heap p = some handle →
        (handle.bundleEntries.map BundleEntry.key).Nodup ∧
          ∀ entry ∈ handle.bundleEntries, entry.key.bytes ≠ []) ∧
      (∀ p m, bundlesOf s.table p = some m → {k | (m k).isSome}.Finite) ∧
      s.table.stats.bundleEntries = ∑ᶠ p, mapSize (bundlesOf s.table p) := by
  have hreplies : (run Bridge.step emptyBridge sharedKey).map
      (fun s => s.history.map Observation.reply) =
        some [.pointer 16, .done, .content (some (.int 7)), .accepted true,
          .content (some (.int 0)), .content (some (.boolean true))] := by decide +kernel
  obtain ⟨s, hrun, hs⟩ := Option.map_eq_some_iff.mp hreplies
  exact ⟨s, hrun, hs, bundles_refine hrun⟩

end Runs

end Asm2Runtime.Jni
