import Retoken.Proofs.Declaration.Sites
import Retoken.Proofs.Relocation.Stages

/-!
# Annotations in a relocated file

A string value of an annotation names its text directly, so a relocated value is the old one with another text at each of its sites, and everything else about it is read as before.
-/

namespace Retoken

open Reader

variable {pool : ConstantPool} {start stop : Cursor}

namespace Relocation.Keeps

variable {relocation : Relocation} {slot : Slot} {bytes : List UInt8}

theorem text (hkeeps : relocation.Keeps slot) (hkind : slot.kind = .utf8)
    (hbytes : relocation.source.utf8Bytes slot.index = .ok bytes) :
    ∃ bytes', relocation.target.utf8Bytes (relocation.index slot) = .ok bytes'
      ∧ StringSite.ofBytes? bytes' (relocation.slot slot)
        = (StringSite.ofBytes? bytes slot).map relocation.site := by
  rw [ConstantPool.utf8Bytes_eq_ok] at hbytes
  rcases hkeeps with ⟨hsame, htext⟩ | ⟨⟨old, hold⟩, hnew⟩
  · refine ⟨bytes, ConstantPool.utf8Bytes_eq_ok.mpr (hsame.trans hbytes), ?_⟩
    rw [StringSite.ofBytes?, StringSite.ofBytes?]
    cases hdecoded : Text.ModifiedUtf8.toString? bytes with
    | none => rfl
    | some decoded =>
      have hshown : relocation.source.shownText? slot.kind slot.index = some decoded := by
        rw [hkind, ConstantPool.shownText?_utf8, ConstantPool.textAt?_eq_some]
        exact ⟨bytes, hbytes, hdecoded⟩
      rw [← htext decoded hshown]
      rfl
  · rw [hkind, ConstantPool.shownText?_utf8, ConstantPool.textAt?_eq_some] at hold hnew
    obtain ⟨oldBytes, holdGet, holdDecoded⟩ := hold
    obtain ⟨newBytes, hnewGet, hnewDecoded⟩ := hnew
    rw [hbytes] at holdGet
    cases holdGet
    refine ⟨newBytes, ConstantPool.utf8Bytes_eq_ok.mpr hnewGet, ?_⟩
    rw [StringSite.ofBytes?, StringSite.ofBytes?, hnewDecoded, holdDecoded]
    rfl

end Relocation.Keeps

namespace ElementValue

def slots (value : ElementValue StringSite) : List Slot :=
  value.sites.map (·.slot)

theorem slots_array (values : List (ElementValue StringSite)) :
    (array values).slots = values.flatMap slots := by
  rw [slots, sites, itemSites_eq, List.map_flatMap]
  rfl

theorem slots_nested (type : String) (members : List (String × ElementValue StringSite)) :
    (nested type members).slots = members.flatMap fun member => member.2.slots := by
  rw [slots, sites, memberSites_eq, List.map_flatMap]
  rfl

theorem readNumber_carried {tag : UInt8} {value : ElementValue StringSite}
    (hread : readNumber pool tag start = .ok (value, stop)) :
    Carried pool start stop value.slots fun relocation =>
      readNumber relocation.target tag (relocation.cursor start)
        = .ok (value.map relocation.site, relocation.cursor stop) := by
  obtain ⟨index, constant, number, hindex, hget, hnumber, rfl⟩ := readNumber_eq_ok.mp hread
  refine (u16_carried hindex).imp fun relocation hsource hrun => ?_
  subst hsource
  have hnotString : ∀ text, constant ≠ .string text := by
    rintro text rfl
    cases hnumber
  have hgetTarget : relocation.target.get index = .ok constant :=
    ConstantPool.get_eq_ok.mpr (relocation.kept (ConstantPool.get_eq_ok.mp hget) hnotString)
  exact readNumber_eq_ok.mpr ⟨index, constant, number, hrun, hgetTarget, hnumber, rfl⟩

def ofSite? : Option StringSite → ElementValue StringSite
  | some site => string site
  | none => nonText

theorem slots_ofBytes? (bytes : List UInt8) (slot : Slot) :
    (ofSite? (StringSite.ofBytes? bytes slot)).slots.Subperm [slot] := by
  rw [StringSite.ofBytes?]
  cases Text.ModifiedUtf8.toString? bytes with
  | none => exact List.nil_subperm
  | some text => exact List.Subperm.refl _

theorem map_ofSite? (f : StringSite → StringSite) (site? : Option StringSite) :
    (ofSite? site?).map f = ofSite? (site?.map f) := by
  cases site? <;> rfl

theorem readString_eq_ok {value : ElementValue StringSite} :
    readString pool start = .ok (value, stop)
      ↔ ∃ index bytes, u16 start = .ok (index, stop) ∧ pool.utf8Bytes index = .ok bytes
        ∧ value = ofSite? (StringSite.ofBytes? bytes ⟨.utf8, start.position, index⟩) := by
  rw [readString, run_bind run_position, bind_eq_ok]
  simp only [bind_eq_ok, lift_eq_ok]
  constructor
  · rintro ⟨index, middle, hindex, bytes, _, ⟨hbytes, rfl⟩, hread⟩
    cases hsite : StringSite.ofBytes? bytes ⟨.utf8, start.position, index⟩ <;>
      simp only [hsite] at hread <;>
      obtain ⟨rfl, rfl⟩ := pure_eq_ok.mp hread <;>
      exact ⟨index, bytes, hindex, hbytes, by rw [hsite]; rfl⟩
  · rintro ⟨index, bytes, hindex, hbytes, rfl⟩
    refine ⟨index, stop, hindex, bytes, stop, ⟨hbytes, rfl⟩, ?_⟩
    cases StringSite.ofBytes? bytes ⟨.utf8, start.position, index⟩ <;> rfl

theorem readString_carried {value : ElementValue StringSite}
    (hread : readString pool start = .ok (value, stop)) :
    Carried pool start stop value.slots fun relocation =>
      readString relocation.target (relocation.cursor start)
        = .ok (value.map relocation.site, relocation.cursor stop) := by
  obtain ⟨index, bytes, hindex, hbytes, rfl⟩ := readString_eq_ok.mp hread
  have hsuits : pool.Suits ⟨.utf8, start.position, index⟩ :=
    ⟨_, ConstantPool.utf8Bytes_eq_ok.mp hbytes, fun _ => ⟨bytes, rfl⟩⟩
  refine (slot16_carried ⟨.utf8, start.position, index⟩ hindex nofun rfl rfl).keeps.mono
    (slots_ofBytes? bytes _) fun relocation hsource hrun => ?_
  subst hsource
  obtain ⟨hrun, hkeeps⟩ := hrun
  obtain ⟨bytes', hbytes', hsite'⟩ := (hkeeps _ (List.mem_singleton.mpr rfl) hsuits).text rfl hbytes
  refine readString_eq_ok.mpr ⟨_, bytes', hrun, hbytes', ?_⟩
  rw [map_ofSite?, ← hsite']
  rfl

theorem readMember_carried {value : Reader (ElementValue StringSite)}
    (value' : Relocation → Reader (ElementValue StringSite))
    (hvalue : ∀ {start stop : Cursor} {a : ElementValue StringSite}, value start = .ok (a, stop) →
      Carried pool start stop a.slots fun relocation =>
        value' relocation (relocation.cursor start) = .ok (a.map relocation.site, relocation.cursor stop))
    {member : String × ElementValue StringSite}
    (hread : readMember pool value start = .ok (member, stop)) :
    Carried pool start stop member.2.slots fun relocation =>
      readMember relocation.target (value' relocation) (relocation.cursor start)
        = .ok ((member.1, member.2.map relocation.site), relocation.cursor stop) := by
  obtain ⟨middle, hname, hread⟩ := readMember_eq_ok.mp hread
  exact ((text_carried hname).and (hvalue hread)).imp fun relocation _ hrun => readMember_eq_ok.mpr ⟨_, hrun⟩

section Levels

variable {item memberValue : Reader (ElementValue StringSite)}
  (item' memberValue' : Relocation → Reader (ElementValue StringSite))
  (hitem : ∀ {start stop : Cursor} {a : ElementValue StringSite}, item start = .ok (a, stop) →
    Carried pool start stop a.slots fun relocation =>
      item' relocation (relocation.cursor start) = .ok (a.map relocation.site, relocation.cursor stop))
  (hmemberValue : ∀ {start stop : Cursor} {a : ElementValue StringSite}, memberValue start = .ok (a, stop) →
    Carried pool start stop a.slots fun relocation =>
      memberValue' relocation (relocation.cursor start) = .ok (a.map relocation.site, relocation.cursor stop))
  {value : ElementValue StringSite}

include hitem hmemberValue

theorem TaggedRead.carried {tag : UInt8} {kind : Char}
    (htagged : TaggedRead pool item memberValue tag start stop kind value) :
    Carried pool start stop value.slots fun relocation =>
      TaggedRead relocation.target (item' relocation) (memberValue' relocation) tag (relocation.cursor start)
        (relocation.cursor stop) kind (value.map relocation.site) := by
  cases htagged with
  | number hkind hnumber => exact (readNumber_carried hnumber).imp fun relocation _ hrun => .number hkind hrun
  | string hstring => exact (readString_carried hstring).imp fun relocation _ hrun => .string hrun
  | enumConstant htype hname =>
    exact ((text_carried htype).and (text_carried hname)).imp fun relocation _ hrun => .enumConstant hrun.1 hrun.2
  | classRef hdescriptor => exact (text_carried hdescriptor).imp fun relocation _ hrun => .classRef hrun
  | nested htype hmembers =>
    rw [slots_nested]
    refine ((text_carried htype).and (counted_carried
      (fun relocation => readMember relocation.target (memberValue' relocation))
      (fun relocation member => (member.1, member.2.map relocation.site))
      (readMember_carried memberValue' hmemberValue) hmembers)).imp fun relocation _ hrun => ?_
    rw [map_nested]
    exact .nested hrun.1 hrun.2
  | array hvalues =>
    rw [slots_array]
    refine (counted_carried item' (fun relocation => map relocation.site) hitem hvalues).imp fun relocation _ hrun => ?_
    rw [map_array]
    exact .array hrun

/-- One value is carried if the values inside it are, so this is the step from level to level. -/
theorem readWith_carried (hread : readWith pool item memberValue start = .ok (value, stop)) :
    Carried pool start stop value.slots fun relocation =>
      readWith relocation.target (item' relocation) (memberValue' relocation) (relocation.cursor start)
        = .ok (value.map relocation.site, relocation.cursor stop) := by
  obtain ⟨tag, afterTag, htag, htagged⟩ := exists_taggedRead hread
  exact ((u8_carried htag).and (htagged.carried item' memberValue' hitem hmemberValue)).imp fun relocation _ hrun =>
    TaggedRead.run hrun.1 hrun.2

end Levels

theorem readLevels_carried : ∀ (levels : Nat) {start stop : Cursor} {value : ElementValue StringSite},
    readLevels pool levels start = .ok (value, stop) →
      Carried pool start stop value.slots fun relocation =>
        readLevels relocation.target levels (relocation.cursor start)
          = .ok (value.map relocation.site, relocation.cursor stop)
  | 0, _, _, _, hread => absurd hread fail_ne_ok
  | 1, _, _, _, hread =>
    readWith_carried _ _ (fun hread => absurd hread fail_ne_ok) (fun hread => absurd hread fail_ne_ok) hread
  | levels + 2, _, _, _, hread =>
    readWith_carried (fun relocation => readLevels relocation.target (levels + 1))
      (fun relocation => readLevels relocation.target levels)
      (readLevels_carried (levels + 1)) (readLevels_carried levels) hread

theorem read_carried {depth : Nat} {value : ElementValue StringSite}
    (hread : read pool depth start = .ok (value, stop)) :
    Carried pool start stop value.slots fun relocation =>
      read relocation.target depth (relocation.cursor start)
        = .ok (value.map relocation.site, relocation.cursor stop) :=
  readLevels_carried _ hread

end ElementValue

namespace AnnotationUse

def slots (use : AnnotationUse StringSite) : List Slot :=
  use.sites.map (·.slot)

theorem slots_eq (use : AnnotationUse StringSite) :
    use.slots = use.members.flatMap fun member => member.2.slots := by
  rw [slots, sites, ElementValue.memberSites_eq, List.map_flatMap]
  rfl

theorem read_carried {use : AnnotationUse StringSite} (hread : read pool start = .ok (use, stop)) :
    Carried pool start stop use.slots fun relocation =>
      read relocation.target (relocation.cursor start)
        = .ok (use.map relocation.site, relocation.cursor stop) := by
  obtain ⟨middle, htype, hmembers⟩ := read_eq_ok.mp hread
  rw [slots_eq]
  refine ((text_carried htype).and (counted_carried
    (fun relocation => ElementValue.readMember relocation.target (ElementValue.read relocation.target 1))
    (fun relocation member => (member.1, member.2.map relocation.site))
    (ElementValue.readMember_carried _ ElementValue.read_carried) hmembers)).imp fun relocation _ hrun => ?_
  rw [map_eq]
  exact read_eq_ok.mpr ⟨_, hrun⟩

theorem readAll_carried {uses : List (AnnotationUse StringSite)}
    (hread : readAll pool start = .ok (uses, stop)) :
    Carried pool start stop (uses.flatMap slots) fun relocation =>
      readAll relocation.target (relocation.cursor start)
        = .ok (uses.map (map relocation.site), relocation.cursor stop) :=
  counted_carried (fun relocation => read relocation.target) (fun relocation => map relocation.site)
    read_carried hread

theorem readPerParameter_carried {uses : List (List (AnnotationUse StringSite))}
    (hread : readPerParameter pool start = .ok (uses, stop)) :
    Carried pool start stop (uses.flatMap (·.flatMap slots)) fun relocation =>
      readPerParameter relocation.target (relocation.cursor start)
        = .ok (uses.map (·.map (map relocation.site)), relocation.cursor stop) := by
  rw [readPerParameter] at hread
  obtain ⟨count, afterCount, hcount, hread⟩ := bind_eq_ok.mp hread
  refine ((u8_carried hcount).and (times_carried (fun relocation => readAll relocation.target)
    (fun relocation => List.map (map relocation.site)) readAll_carried hread)).imp
    fun relocation _ hrun => ?_
  obtain ⟨hcountRun, husesRun⟩ := hrun
  rw [readPerParameter, run_bind hcountRun, husesRun]

end AnnotationUse

end Retoken
