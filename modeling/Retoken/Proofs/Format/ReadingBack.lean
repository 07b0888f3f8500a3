import Retoken.Proofs.ConstantPool.Faults
import Retoken.Proofs.Format.Nesting

/-!
# Annotations are read back

Reading an annotation undoes writing it as long as no value lies too deep. A layout that names the right constants is read as the value for it exactly if it is shallow, and there is only one other way for the reading to end. The recursion goes no further than two levels below the limit, however deep the values nest.
-/

namespace Retoken

open BigEndian Reader

variable {pool : ConstantPool} {start stop : Cursor} {depth : Nat}

theorem Reader.run_bind_text {β : Type} {next : String → Reader β} {index : UInt16} {middle : Cursor}
    (hlegible : pool.Legible index) (hspells : start.Spells (bytes16 index) middle) :
    (u16 >>= fun index => (liftM (pool.text index) : Reader String) >>= next) start
      = next (pool.nameAt index) middle := by
  obtain ⟨text, htext⟩ := hlegible
  have hlook : pool.text index = .ok text := ConstantPool.text_eq_ok.mpr (ConstantPool.textAt?_eq_some.mp htext)
  rw [run_bind (u16_eq_ok.mpr hspells), run_bind (run_lift hlook), ConstantPool.nameAt, htext, Option.getD_some]

/-! ### Readers that refuse nothing but depth -/

/-- A reader reads some bytes as what they stand for under a condition, and otherwise fails because values nest too deep. -/
structure Reader.ReadsIf {α : Type} (shallow : Prop) (reader : Reader α) (bytes : List UInt8)
    (content : Nat → α) : Prop where
  accepts : shallow → ∀ start stop : Cursor, start.Spells bytes stop → reader start = .ok (content start.position, stop)
  refuses : ¬ shallow → ∀ start stop : Cursor, start.Spells bytes stop →
    reader start = .error (.malformed (.elementTooDeep ElementValue.maxDepth))

namespace Reader.ReadsIf

variable {α β γ : Type} {reader item : Reader α} {bytes nextBytes : List UInt8} {content : Nat → α}
  {shallow nextShallow : Prop}

theorem congr (hreads : ReadsIf shallow reader bytes content) (hiff : nextShallow ↔ shallow) :
    ReadsIf nextShallow reader bytes content :=
  propext hiff ▸ hreads

theorem of_forall (hrun : ∀ start stop : Cursor, start.Spells bytes stop →
    reader start = .ok (content start.position, stop))
    (hshallow : shallow) : ReadsIf shallow reader bytes content where
  accepts _ := hrun
  refuses hdeep := absurd hshallow hdeep

theorem bind (next : α → Reader β) {nextContent : Nat → Nat → β} (hreads : ReadsIf shallow reader bytes content)
    (hnext : ∀ position, ReadsIf nextShallow (next (content position)) nextBytes (nextContent position)) :
    ReadsIf (shallow ∧ nextShallow) (reader >>= next) (bytes ++ nextBytes)
      fun position => nextContent position (position + bytes.length) where
  accepts := by
    rintro ⟨hshallow, hnextShallow⟩ start stop hspells
    obtain ⟨middle, hfirst, hsecond⟩ := Cursor.Spells.append_iff.mp hspells
    rw [run_bind (hreads.accepts hshallow _ _ hfirst), (hnext _).accepts hnextShallow _ _ hsecond, hfirst.2]
  refuses := by
    intro hdeep start stop hspells
    obtain ⟨middle, hfirst, hsecond⟩ := Cursor.Spells.append_iff.mp hspells
    by_cases hshallow : shallow
    · rw [run_bind (hreads.accepts hshallow _ _ hfirst)]
      exact (hnext _).refuses (fun hnextShallow => hdeep ⟨hshallow, hnextShallow⟩) _ _ hsecond
    · exact bind_eq_error.mpr (.inl (hreads.refuses hshallow _ _ hfirst))

theorem behind {payload : Reader α} (front : List UInt8) (hreads : ReadsIf shallow payload bytes content)
    (hrun : ∀ start middle : Cursor, start.Spells front middle → reader start = payload middle) :
    ReadsIf shallow reader (front ++ bytes) fun position => content (position + front.length) where
  accepts := by
    intro hshallow start stop hspells
    obtain ⟨middle, hfront, hrest⟩ := Cursor.Spells.append_iff.mp hspells
    rw [hrun _ _ hfront, hreads.accepts hshallow _ _ hrest, hfront.2]
  refuses := by
    intro hdeep start stop hspells
    obtain ⟨middle, hfront, hrest⟩ := Cursor.Spells.append_iff.mp hspells
    rw [hrun _ _ hfront, hreads.refuses hdeep _ _ hrest]

theorem map (f : α → β) (hreads : ReadsIf shallow reader bytes content) :
    ReadsIf shallow (do return f (← reader)) bytes fun position => f (content position) where
  accepts := by
    intro hshallow start stop hspells
    rw [run_bind (hreads.accepts hshallow _ _ hspells), run_pure]
  refuses := by
    intro hdeep start stop hspells
    exact bind_eq_error.mpr (.inl (hreads.refuses hdeep _ _ hspells))

theorem text (f : String → β) {index : UInt16} (hlegible : pool.Legible index) :
    ReadsIf True (do return f (← pool.text (← u16))) (bytes16 index) fun _ => f (pool.nameAt index) :=
  of_forall (fun _ _ hspells => run_bind_text hlegible hspells) trivial

section Rows

variable {toBytes : γ → List UInt8} {itemContent : Nat → γ → α} {itemShallow : γ → Prop} {layouts : List γ}

theorem times (hitem : ∀ layout ∈ layouts, ReadsIf (itemShallow layout) item (toBytes layout) (itemContent · layout)) :
    ReadsIf (∀ layout ∈ layouts, itemShallow layout) (Reader.times item layouts.length) (layouts.flatMap toBytes)
      (inRow toBytes (fun position layout => [itemContent position layout]) · layouts) := by
  induction layouts with
  | nil =>
    refine of_forall ?_ nofun
    rintro start stop ⟨hrest, hposition⟩
    obtain rfl : stop = start := by
      cases start
      cases stop
      cases hrest
      cases hposition
      rfl
    rfl
  | cons layout layouts ih =>
    obtain ⟨hhead, htail⟩ := List.forall_mem_cons.mp hitem
    rw [List.length_cons, times_succ, List.flatMap_cons]
    exact (hhead.bind (fun a => do let items ← Reader.times item layouts.length; return a :: items)
      fun position => (ih htail).map (itemContent position layout :: ·)).congr List.forall_mem_cons

theorem counted (hcount : layouts.length ≤ maxCount)
    (hitem : ∀ layout ∈ layouts, ReadsIf (itemShallow layout) item (toBytes layout) (itemContent · layout)) :
    ReadsIf (∀ layout ∈ layouts, itemShallow layout) (Reader.counted item) (countedToBytes toBytes layouts)
      fun position => inRow toBytes (fun position layout => [itemContent position layout]) (position + 2) layouts := by
  have hlength : (UInt16.ofNat layouts.length).toNat = layouts.length := by
    rw [maxCount] at hcount
    rw [UInt16.toNat_ofNat']
    omega
  have hfirst : ReadsIf True u16 (ElementLayout.countBytes layouts) fun _ => UInt16.ofNat layouts.length :=
    of_forall (fun _ _ hspells => u16_eq_ok.mpr hspells) trivial
  have hitems : ReadsIf (∀ layout ∈ layouts, itemShallow layout) (Reader.times item (UInt16.ofNat layouts.length).toNat)
      (layouts.flatMap toBytes) (inRow toBytes (fun position layout => [itemContent position layout]) · layouts) := by
    rw [hlength]
    exact times hitem
  exact (hfirst.bind (fun count => Reader.times item count.toNat) fun _ => hitems).congr (iff_of_eq (true_and _).symm)

end Rows

end Reader.ReadsIf

namespace ElementValue

open ElementLayout

variable {item memberReader : Reader (ElementValue StringSite)} {shallow : Prop}

/-! ### One value -/

theorem read_of_le (hdepth : depth ≤ maxDepth) :
    read pool depth = readWith pool (read pool (depth + 1)) (read pool (depth + 2)) := by
  obtain ⟨levels, hlevels⟩ := Nat.exists_eq_add_of_le hdepth
  have hhere : maxDepth + 1 - depth = levels + 1 := by omega
  have hitem : maxDepth + 1 - (depth + 1) = levels := by omega
  have hmember : maxDepth + 1 - (depth + 2) = levels - 1 := by omega
  rw [read, read, read, hhere, hitem, hmember]
  cases levels <;> rfl

theorem read_of_lt (hdepth : maxDepth < depth) : read pool depth = fail (.elementTooDeep maxDepth) := by
  have hnone : maxDepth + 1 - depth = 0 := by omega
  rw [read, hnone]
  rfl

theorem readNumber_reads {tag : Char} {index : UInt16} {constant : Constant} (hget : pool.get? index = some constant)
    (htag : tag ∈ constant.numberTags) :
    ReadsIf True (readNumber pool (tagByte tag)) (bytes16 index) fun _ => .number tag (pool.numberAt index) := by
  refine .of_forall (fun start stop hspells => ?_) trivial
  rw [readNumber, run_bind (u16_eq_ok.mpr hspells), run_bind (run_lift (ConstantPool.get_eq_ok.mpr hget)),
    ConstantPool.numberAt, hget]
  cases constant with
  | integer value =>
    simp only [Constant.numberTags, List.mem_cons, List.not_mem_nil, or_false] at htag
    rcases htag with rfl | rfl | rfl | rfl | rfl <;> rfl
  | float bits | long value | double bits =>
    obtain rfl := List.mem_singleton.mp htag
    rfl
  | _ => cases htag

theorem readString_reads {text : UInt16} {bytes : List UInt8} (hget : pool.get? text = some (.utf8 bytes)) :
    ReadsIf True (readString pool) (bytes16 text) fun position =>
      match pool.textAt? text with
      | some stored => .string (.unedited stored ⟨.utf8, position, text⟩)
      | none => .nonText := by
  refine .of_forall (fun start stop hspells => ?_) trivial
  refine readString_eq_ok.mpr ⟨text, bytes, u16_eq_ok.mpr hspells, ConstantPool.utf8Bytes_eq_ok.mpr hget, ?_⟩
  have htext : pool.textAt? text = Text.ModifiedUtf8.toString? bytes := by rw [ConstantPool.textAt?, hget]
  rw [htext, StringSite.ofBytes?]
  cases Text.ModifiedUtf8.toString? bytes <;> rfl

theorem readMember_reads {member : UInt16 × ElementLayout} (hname : pool.Legible member.1)
    (hvalue : ReadsIf shallow memberReader member.2.toBytes fun position => member.2.value pool position) :
    ReadsIf shallow (readMember pool memberReader) (memberToBytes member) fun position =>
      memberValue pool position member :=
  (hvalue.map (pool.nameAt member.1, ·)).behind (bytes16 member.1) fun _ _ hspells => run_bind_text hname hspells

theorem members_read {memberShallow : ElementLayout → Prop} {members : List (UInt16 × ElementLayout)}
    (hcount : members.length ≤ maxCount) (hnames : ∀ member ∈ members, pool.Legible member.1)
    (hvalues : ∀ member ∈ members, ReadsIf (memberShallow member.2) memberReader member.2.toBytes
      fun position => member.2.value pool position) :
    ReadsIf (∀ member ∈ members, memberShallow member.2) (Reader.counted (readMember pool memberReader))
      (countBytes members ++ membersToBytes members) fun position => memberValues pool (position + 2) members := by
  simp only [membersToBytes_eq, memberValues_eq]
  exact .counted hcount fun member hmember => readMember_reads (hnames member hmember) (hvalues member hmember)

theorem items_read {itemShallow : ElementLayout → Prop} {items : List ElementLayout} (hcount : items.length ≤ maxCount)
    (hitems : ∀ layout ∈ items, ReadsIf (itemShallow layout) item layout.toBytes fun position =>
      layout.value pool position) :
    ReadsIf (∀ layout ∈ items, itemShallow layout) (Reader.counted item) (countBytes items ++ itemsToBytes items)
      fun position => itemValues pool (position + 2) items := by
  simp only [itemsToBytes_eq, itemValues_eq]
  exact .counted hcount hitems

/-- One value that is not too deep itself, given that the values inside it are read. -/
theorem readWith_reads {layout : ElementLayout}
    (hdepth : depth ≤ maxDepth) (hwell : layout.WellFormed) (htyped : layout.Typed pool)
    (hitem : ∀ inner items, layout = .array items → inner ∈ items →
      ReadsIf (inner.Shallow (depth + 1)) item inner.toBytes fun position => inner.value pool position)
    (hmember : ∀ inner type members name, layout = .nested type members → (name, inner) ∈ members →
      ReadsIf (inner.Shallow (depth + 2)) memberReader inner.toBytes fun position => inner.value pool position) :
    ReadsIf (layout.Shallow depth) (readWith pool item memberReader) layout.toBytes fun position =>
      layout.value pool position := by
  -- A value without others in it is shallow as soon as it is not too deep itself, so the condition is void there.
  have hleaf : (∀ items, layout ≠ .array items) → (∀ type members, layout ≠ .nested type members) →
      (layout.Shallow depth ↔ True) := fun harray hnested => iff_true_intro (.leaf hdepth harray hnested)
  cases htyped with
  | @number tag index constant hget htag =>
    obtain ⟨hknown⟩ := hwell
    refine ReadsIf.congr ?_ (hleaf (by rintro _ ⟨⟩) (by rintro _ _ ⟨⟩))
    refine (readNumber_reads hget htag).behind [tagByte tag] fun start middle hspells => ?_
    rw [readWith, run_bind (Cursor.Spells.u8_iff.mpr hspells)]
    simp only [ElementLayout.numberTags, List.mem_cons, List.not_mem_nil, or_false] at hknown
    rcases hknown with rfl | rfl | rfl | rfl | rfl | rfl | rfl | rfl <;> rfl
  | string hget =>
    refine ReadsIf.congr ?_ (hleaf (by rintro _ ⟨⟩) (by rintro _ _ ⟨⟩))
    refine (readString_reads hget).behind [tagByte 's'] fun start middle hspells => ?_
    rw [readWith, run_bind (Cursor.Spells.u8_iff.mpr hspells)]
    rfl
  | @enumConstant type name htype hname =>
    refine ReadsIf.congr ?_ (hleaf (by rintro _ ⟨⟩) (by rintro _ _ ⟨⟩))
    have hpayload := ReadsIf.text (ElementValue.enumConstant (σ := StringSite) (pool.nameAt type)) hname
    refine hpayload.behind (tagByte 'e' :: bytes16 type) fun start middle hspells => ?_
    obtain ⟨afterTag, htag, hindex⟩ := Cursor.Spells.cons_iff.mp hspells
    rw [readWith, run_bind (Cursor.Spells.u8_iff.mpr htag)]
    exact run_bind_text htype hindex
  | @classRef descriptor hdescriptor =>
    refine ReadsIf.congr ?_ (hleaf (by rintro _ ⟨⟩) (by rintro _ _ ⟨⟩))
    have hpayload := ReadsIf.text (ElementValue.classRef (σ := StringSite)) hdescriptor
    refine hpayload.behind [tagByte 'c'] fun start middle hspells => ?_
    rw [readWith, run_bind (Cursor.Spells.u8_iff.mpr hspells)]
    rfl
  | array hitems =>
    cases hwell with | array hcount _ =>
    refine ReadsIf.congr ?_ (shallow_array hdepth)
    have hpayload := (items_read hcount fun inner => hitem inner _ rfl).map ElementValue.array
    refine hpayload.behind [tagByte '['] fun start middle hspells => ?_
    rw [readWith, run_bind (Cursor.Spells.u8_iff.mpr hspells)]
    rfl
  | @nested type members htype hnames hmembers =>
    cases hwell with | nested hcount _ =>
    refine ReadsIf.congr ?_ (shallow_nested hdepth)
    have hpayload := (members_read hcount hnames fun inner hinner => hmember inner.2 _ _ _ rfl hinner).map
      (ElementValue.nested (pool.nameAt type))
    rw [ElementLayout.toBytes, List.append_assoc]
    refine hpayload.behind (tagByte '@' :: bytes16 type) fun start middle hspells => ?_
    obtain ⟨afterTag, htag, hindex⟩ := Cursor.Spells.cons_iff.mp hspells
    rw [readWith, run_bind (Cursor.Spells.u8_iff.mpr htag)]
    exact run_bind_text htype hindex

/-- One value at any depth, given that the values inside it are read at any depth. -/
theorem read_reads_step {layout : ElementLayout} (hwell : layout.WellFormed) (htyped : layout.Typed pool)
    (hitem : ∀ inner items, layout = .array items → inner ∈ items → ∀ depth,
      ReadsIf (inner.Shallow depth) (read pool depth) inner.toBytes fun position => inner.value pool position)
    (hmember : ∀ inner type members name, layout = .nested type members → (name, inner) ∈ members → ∀ depth,
      ReadsIf (inner.Shallow depth) (read pool depth) inner.toBytes fun position => inner.value pool position)
    (depth : Nat) :
    ReadsIf (layout.Shallow depth) (read pool depth) layout.toBytes fun position => layout.value pool position := by
  rcases Nat.lt_or_ge maxDepth depth with hdeep | hdepth
  · refine ⟨fun hshallow => absurd hshallow.le (Nat.not_le_of_lt hdeep), fun _ start stop _ => ?_⟩
    rw [read_of_lt hdeep]
    rfl
  · rw [read_of_le hdepth]
    exact readWith_reads hdepth hwell htyped (fun inner items harray hinner => hitem inner items harray hinner _)
      fun inner type members name hnested hinner => hmember inner type members name hnested hinner _

/-- A value at any depth is read as what its layout stands for, unless something in it lies too deep. -/
theorem read_reads {layout : ElementLayout} (hwell : layout.WellFormed) (htyped : layout.Typed pool) (depth : Nat) :
    ReadsIf (layout.Shallow depth) (read pool depth) layout.toBytes fun position => layout.value pool position := by
  induction hwell generalizing depth with
  | number htag => exact read_reads_step (.number htag) htyped nofun nofun depth
  | string => exact read_reads_step .string htyped nofun nofun depth
  | enumConstant => exact read_reads_step .enumConstant htyped nofun nofun depth
  | classRef => exact read_reads_step .classRef htyped nofun nofun depth
  | array hcount hitems ih =>
    refine read_reads_step (.array hcount hitems) htyped ?_ nofun depth
    rintro inner _ ⟨⟩ hinner depth
    cases htyped with | array hitemsTyped => exact ih inner hinner (hitemsTyped inner hinner) depth
  | nested hcount hmembers ih =>
    refine read_reads_step (.nested hcount hmembers) htyped nofun ?_ depth
    rintro inner _ _ name ⟨⟩ hinner depth
    cases htyped with | nested _ _ hmembersTyped => exact ih (name, inner) hinner (hmembersTyped _ hinner) depth

/-! ### Values of no known kind -/

def tags : List Char :=
  ElementLayout.numberTags ++ ['s', 'e', 'c', '@', '[']

theorem read_unknown {tag : UInt8} {rest : List UInt8} (hdepth : depth ≤ maxDepth) (hstart : start.rest = tag :: rest)
    (hunknown : ∀ known ∈ tags, tag ≠ tagByte known) : read pool depth start = .error (.unsupportedElement tag) := by
  have htag : u8 start = .ok (tag, ⟨start.position + 1, rest⟩) := u8_eq_ok.mpr ⟨hstart, rfl⟩
  have hkind : Char.ofNat tag.toNat ∉ tags := fun hknown => hunknown _ hknown (tagByte_ofNat tag).symm
  rw [read_of_le hdepth, readWith, run_bind htag]
  generalize Char.ofNat tag.toNat = kind at hkind
  split
  case h_14 => rfl
  all_goals exact absurd (by decide) hkind

/-! ### How deep the recursion goes -/

/-- Reads a value at a depth, with something done first whenever the reading of a value begins. -/
def readWatched (watch : Nat → Reader Unit) (pool : ConstantPool) (depth : Nat) : Reader (ElementValue StringSite) := do
  watch depth
  if _hdeep : maxDepth < depth then fail (.elementTooDeep maxDepth)
  else readWith pool (readWatched watch pool (depth + 1)) (readWatched watch pool (depth + 2))
termination_by maxDepth + 1 - depth
decreasing_by all_goals omega

/-- What would be done more than two levels below the limit is never done. -/
theorem readWatched_eq_read {watch : Nat → Reader Unit} (hwatch : ∀ depth ≤ maxDepth + 2, watch depth = pure ())
    (depth : Nat) (hdepth : depth ≤ maxDepth + 2) : readWatched watch pool depth = read pool depth := by
  rw [readWatched, hwatch depth hdepth, pure_bind]
  split
  case isTrue hdeep => rw [read_of_lt hdeep]
  case isFalse hshallow =>
    have hle := Nat.le_of_not_lt hshallow
    rw [read_of_le hle, readWatched_eq_read hwatch (depth + 1) (by omega),
      readWatched_eq_read hwatch (depth + 2) (by omega)]
termination_by maxDepth + 2 - depth

end ElementValue

namespace AnnotationUse

theorem read_reads {layout : AnnotationLayout} (hwell : layout.WellFormed) (htyped : layout.Typed pool) :
    ReadsIf layout.Shallow (read pool) layout.toBytes fun position => layout.use pool position := by
  have hmembers := ElementValue.members_read hwell.count htyped.names fun member hmember =>
    ElementValue.read_reads (hwell.members member hmember) (htyped.members member hmember) 1
  rw [AnnotationLayout.toBytes, List.append_assoc]
  exact (hmembers.map (AnnotationUse.mk (pool.nameAt layout.type))).behind (bytes16 layout.type)
    fun _ _ hspells => run_bind_text htyped.type hspells

end AnnotationUse

/-! ### Defaults of annotation methods -/

/-- The default is read from the whole body of its attribute. -/
theorem PendingMethod.addAttribute_default {shallow : Prop} {bytes : List UInt8}
    {content : Nat → ElementValue StringSite}
    (hreads : ReadsIf shallow (ElementValue.read pool 0) bytes content) (pending : PendingMethod) {attr : Attribute}
    (hname : attr.name = "AnnotationDefault") (hbody : attr.body.rest = bytes) :
    (shallow → pending.addAttribute pool attr = .ok { pending with method := { pending.method with
        annotationDefault? := some (content attr.body.position) } })
      ∧ (¬ shallow → pending.addAttribute pool attr = .error (.malformed (.elementTooDeep ElementValue.maxDepth))) := by
  have hspells : attr.body.Spells bytes ⟨attr.body.position + bytes.length, []⟩ :=
    .of_rest (by rw [hbody, List.append_nil])
  have hadd : pending.addAttribute pool attr = do
      let value ← attr.parse (ElementValue.read pool 0)
      return { pending with method := { pending.method with annotationDefault? := some value } } := by
    rw [addAttribute, hname]
    rfl
  rw [hadd, Attribute.parse]
  constructor
  · intro hshallow
    rw [hreads.accepts hshallow _ _ hspells]
    rfl
  · intro hdeep
    rw [hreads.refuses hdeep _ _ hspells]
    rfl

namespace AnnotationUse

/-- An annotation that names the right constants is read back, with the place of each of its texts, exactly if none of its values lies too deep; so is the default of an annotation method. A value of no known kind is refused, and the recursion ends two levels below the limit. -/
theorem read_back_within_depth (pool : ConstantPool) :
    (∀ layout : AnnotationLayout, layout.WellFormed → layout.Typed pool →
      ReadsIf layout.Shallow (read pool) layout.toBytes (fun position => layout.use pool position)
        ∧ ∀ position, ∀ site ∈ (layout.use pool position).sites,
          ElementLayout.SpellsString position layout.toBytes site.slot
            ∧ pool.textAt? site.slot.index = some site.stored)
    ∧ (∀ layout : ElementLayout, layout.WellFormed → layout.Typed pool →
      (∀ depth, ReadsIf (layout.Shallow depth) (ElementValue.read pool depth) layout.toBytes
          fun position => layout.value pool position)
        ∧ (∀ position, ∀ site ∈ (layout.value pool position).sites,
          ElementLayout.SpellsString position layout.toBytes site.slot
            ∧ pool.textAt? site.slot.index = some site.stored)
        ∧ ∀ (pending : PendingMethod) (attr : Attribute), attr.name = "AnnotationDefault" →
          attr.body.rest = layout.toBytes →
          (layout.Shallow 0 → pending.addAttribute pool attr = .ok { pending with method := { pending.method with
            annotationDefault? := some (layout.value pool attr.body.position) } })
          ∧ (¬ layout.Shallow 0 → pending.addAttribute pool attr
            = .error (.malformed (.elementTooDeep ElementValue.maxDepth))))
    ∧ (∀ (tag : UInt8) (rest : List UInt8) (start : Cursor) (depth : Nat),
      (∀ known ∈ ElementValue.tags, tag ≠ ElementLayout.tagByte known) → start.rest = tag :: rest →
      depth ≤ ElementValue.maxDepth → ElementValue.read pool depth start = .error (.unsupportedElement tag))
    ∧ ∀ watch : Nat → Reader Unit, (∀ depth ≤ 258, watch depth = pure ()) →
      ∀ depth ≤ 258, ElementValue.readWatched watch pool depth = ElementValue.read pool depth := by
  refine ⟨fun layout hwell htyped => ⟨read_reads hwell htyped, fun _ _ => AnnotationLayout.site_spelled⟩,
    fun layout hwell htyped => ?_, ?_, ?_⟩
  · refine ⟨ElementValue.read_reads hwell htyped, fun _ _ => ElementLayout.site_spelled,
      fun pending attr hname hbody => ?_⟩
    exact pending.addAttribute_default (ElementValue.read_reads hwell htyped 0) hname hbody
  · intro tag rest start depth hunknown hstart hdepth
    exact ElementValue.read_unknown hdepth hstart hunknown
  · intro watch hwatch depth hdepth
    exact ElementValue.readWatched_eq_read hwatch depth hdepth

def noteConstants : ConstantPool :=
  ⟨#[none, some (.utf8 [76, 78, 59]), some (.utf8 [118]), some (.utf8 [0xED, 0xA0, 0x80]), some (.integer 5)]⟩

def nestedNote : AnnotationLayout :=
  ⟨1, [(2, .nested 1 [(2, .array [.string 2, .string 3, .number 'I' 4])])]⟩

theorem read_back_within_depth_nestedNote :
    read noteConstants ⟨7, nestedNote.toBytes ++ [0]⟩
      = .ok (⟨"LN;", [("v", .nested "LN;" [("v", .array
          [.string (.unedited "v" ⟨.utf8, 24, 2⟩), .nonText, .number 'I' (.integer 5)])])]⟩, ⟨32, [0]⟩) := by
  have htype : noteConstants.Legible 1 := ⟨"LN;", by decide⟩
  have hname : noteConstants.Legible 2 := ⟨"v", by decide⟩
  have hwell : nestedNote.WellFormed := by
    refine ⟨by decide, List.forall_mem_singleton.mpr (.nested (by decide) (List.forall_mem_singleton.mpr ?_))⟩
    refine .array (by decide) ?_
    simp only [List.forall_mem_cons]
    exact ⟨.string, .string, .number (by decide), nofun⟩
  have htyped : nestedNote.Typed noteConstants := by
    refine ⟨htype, List.forall_mem_singleton.mpr hname, List.forall_mem_singleton.mpr (.nested htype
      (List.forall_mem_singleton.mpr hname) (List.forall_mem_singleton.mpr (.array ?_)))⟩
    simp only [List.forall_mem_cons]
    exact ⟨.string rfl, .string rfl, .number rfl (by decide), nofun⟩
  have hshallow : nestedNote.Shallow := by
    refine List.forall_mem_singleton.mpr ((ElementLayout.shallow_nested (by decide)).mpr
      (List.forall_mem_singleton.mpr ((ElementLayout.shallow_array (by decide)).mpr ?_)))
    simp only [List.forall_mem_cons]
    exact ⟨.leaf (by decide) nofun nofun, .leaf (by decide) nofun nofun, .leaf (by decide) nofun nofun, nofun⟩
  have hspells : Cursor.Spells ⟨7, nestedNote.toBytes ++ [0]⟩ nestedNote.toBytes ⟨32, [0]⟩ := ⟨rfl, rfl⟩
  exact ((read_back_within_depth noteConstants).1 nestedNote hwell htyped).1.accepts hshallow _ _ hspells

end AnnotationUse

end Retoken
