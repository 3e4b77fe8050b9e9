import ScriptEngine.Text.Category
/-!
# Scripts

The scripts of Unicode 17.0: the writing system that a code point belongs to.
-/

namespace ScriptEngine

namespace Script

/-- The code points of each script, in rising order. -/
def tables : List (String × Array CodeRange) := CodeRange.tables [
    "Adlam 1e900+4b 5+9 5+1 Ahom 11700+1a 3+e 5+16 Anatolian_Hieroglyphs 14400+246 Arabic 600+4 2+5 2+d 2+2 2+1f 2+9 c+19 2+6b 2+21 51+2f",
    "f1+21 6+4a 2+1c f251+1ed 3+8f 21+f 71+4 2+86 f64+1e 44+5 9+8 22+5 df01+3 2+1a 2+1 2 3 2+9 2+3 2 2 7 5 2 2 2+2 2+1 2 3 2*4 2+1 2 3+3 2+6",
    "2+3*2 2 2+9 2+10 6+2 2+4 2+10 35+1 Armenian 531+25 3+31 3+2 f584+4 Avestan 10b00+35 4+6 Balinese 1b00+4c 2+31 Bamum a6a0+57 c109+238",
    "Bassa_Vah 16ad0+1d 3+5 Batak 1bc0+33 9+3 Bengali 980+3 2+7 3+1 3+15 2+6 2 4+3 3+8 3+1 3+3 9 5+1 2+4 3+18 Beria_Erfe 16ea0+18 3+18",
    "Bhaiksuki 11c00+8 2+2c 2+d b+1c Bopomofo 2ea+1 2e1a+2a 71+1f Brahmi 11000+4d 5+23 a Braille 2800+ff Buginese 1a00+1b 3+1 Buhid 1740+13",
    "Canadian_Aboriginal 1400+27f 231+45 101bb+f Carian 102a0+30 Caucasian_Albanian 10530+33 c Chakma 11100+34 2+11 Cham aa00+36 a+d 3+9 3+3",
    "Cherokee 13a0+55 3+5 9773+4f Chorasmian 10fb0+1b Common 0+40 1b+5 1b+2e 2+e 2+4 18 20 1c2+26 6+4 3+13 75 a 7 2 27e 7 f 4 21 9d 205 82+1",
    "4da 196+3 123 5f0+2 48+1 cc+1 2 4ce e 8+3 2+5 2+2 3 306+b 3+56 2+a 4+a 2+e 12+21 3f+25 2+2 3+5 2+1a 2+10 2a+2 5+299 17+a 16+39f 101+273",
    "3+89 201+5d 193+14 2 2+18 10+7 5+3 5c+1 4 5b+1 94+f 21+25 a 31+3f 20+50 30 59+a7 19c1+3f 5901+21 67+2 a6+9 f5 a1 18c f+1 51d3+1 d1+9",
    "17+22 2+12 2+3 94 2+1f 1b+5 1b+a b 2e+1 41+6 2+6 b+4 103+2 5+2c 4+8 51+c 34+2c e5+1a b9a5+3 f5d+fc 4+1b3 7+16 10+10 60+73 3d+f5 b+26",
    "3+3d 4+10 9+1 8+1d 5+3c d6+13 d+13 d+56 a+18 88+54 2+46 2+1 3 3+1 3+3 2+b 2 2+6 2+40 2+3 3+7 2+6 2+1b 2+3 2+4 2 4+6 2+153 3+123 3+31",
    "1472+43 4d+3c 2c3+2b 5+63 d+e 3+e 2+e 2+24 b+ad 39+19 2+1 e+2b 5+8 8+1 f+5 9b+3d8 4+10 4+c 4+d9 7+b 5 10+b 5+37 9+9 7+27 9+1d 3+b 5+1",
    "f+8 28+157 9+d 3+c 4+a 4+38 2 5+f 3+b 5+9 8+92 2+66 c0407 1f+5f Coptic 3e2+d 2891+73 6+6 Cuneiform 12000+399 67+6e 2+4 c+c3 Cypriot",
    "10800+5 3 2+2b 2+1 4 3 Cypro_Minoan 12f90+62 Cyrillic 400+84 3+a8 1751+a a1 4d 1068+1f 7841+5f 578f+1 e201+3d 22 Deseret 10400+4f",
    "Devanagari 900+50 5+e 3+19 9f61+1f 7201+9 Dives_Akuru 11900+6 3 3+7 2+1 2+1d 2+1 3+b a+9 Dogra 11800+3b Duployan 1bc00+6a 6+c 4+8 8+9",
    "3+3 Egyptian_Hieroglyphs 13000+455 b+f9a Elbasan 10500+27 Elymaic 10fe0+16 Ethiopic 1200+48 2+3 3+6 2 2+3 3+28 2+3 3+20 2+3 3+6 2 2+3",
    "3+e 2+38 2+3 3+42 3+1f 4+19 19e7+16 a+6 2+6*7 7d23+5 3+5*2 a+6 2+6 13cb2+6 2+3 2+1 2+e Garay 10d40+25 4+1c 9+1 Georgian 10a0+25 2 6 3+2a",
    "2+3 b91+2a 3+2 1041+25 2 6 Glagolitic 2c00+5f 1b3a1+6 2+10 3+6 2+1 2+4 Gothic 10330+1a Grantha 11300+3 2+7 3+1 3+15 2+6 2+1 2+4 3+8 3+1",
    "3+2 3 7 6+6 3+6 4+4 Greek 370+3 2+2 3+3 2 5 2 2+2 2 2+13 2+3e f+f 1927+4 33+4 5+4 55 141+15 3+5 3+25 3+5 3+7 2*3 2+1e 3+34 2+e 2+d 3+5",
    "2+12 3+2 2+8 128 8a3f 55db+4e 12 d060+45 Gujarati a81+2 2+8 2+2 2+15 2+6 2+1 2+4 3+9 2+2*2 3 10+3 3+b 8+6 Gunjala_Gondi 11d60+5 2+1 2+24",
    "2+1 2+5 8+9 Gurmukhi a01+2 2+5 5+1 3+15 2+6 2+1*3 3 2+4 5+1 3+2 4 8+3 2 8+10 Gurung_Khema 16100+39 Han 2e80+19 2+58 d+d5 30 2 1a+8 f+3",
    "3c5+19bf 41+51ff 5901+16d 3+69 7509+1 d+6 900a+a6df 21+111d 3+168d 3+1d30 10+26d 9a3+21d 5e3+134a 6+2129 Hangul 1100+ff 1e2f+1 102+5d",
    "72+1e 42+1e 76e2+1c 284+2ba3 d+16 5+30 27a5+1e 4+5 3+5*2 3+2 Hanifi_Rohingya 10d00+27 9+9 Hanunoo 1720+14 Hatran 108e0+12 2+1 6+4 Hebrew",
    "591+36 9+1a 5+5 f529+19 2+4 2 2+1*2 2+9 Hiragana 3041+55 7+2 17f62+11e 13 1e+2 40ae Imperial_Aramaic 10840+15 2+8 Inherited 300+6f 116+1",
    "1c5+a 1b 2e1+3 115c+2d 3+b 1e5+2 2+c 2+6 5 7 4+1 c7+3f 20d+1 c3+20 f3a+3 6c+1 cd66+f 11+d 3d0 e3 105b bbc5+2d 3+16 221+2 12+7 3+6 1f+3",
    "c2f53+ef Inscriptional_Pahlavi 10b60+12 6+7 Inscriptional_Parthian 10b40+15 3+7 Javanese a980+4d 3+9 5+1 Kaithi 11080+42 b Kannada c80+c",
    "2+2 2+16 2+9 2+4 3+8 2+2 2+3 8+1 6+2 2+3 3+9 2+2 Katakana 30a1+59 3+2 f1+f d1+2e 2+57 cc0f+9 2+2c b053+3 2+6 2+1 2 120+2 33 f+3 Kawi",
    "11f00+10 2+28 4+1c Kayah_Li a900+2d 2 Kharoshthi 10a00+3 2+1 6+7 2+2 2+1c 3+2 5+9 8+8 Khitan_Small_Script 16fe4 1b1c+1d5 Khmer 1780+5d",
    "3+9 7+9 1e7+1f Khojki 11200+11 2+2e Khudawadi 112b0+3a 6+9 Kirat_Rai 16d40+39 Lao e81+1 2 2+4 2+17 2 2+16 3+4 2 2+6 2+9 3+3 Latin 41+19",
    "7+19 30 10 6+16 2+1e 2+1c0 28+4 1a1c+25 7+30 6+3 6+c 2+45 42+ff 172 e 11+c 8e+1 7 1c 12+28 ad8+1f 7aa3+65 4+51 15+e 331+2a 2+8 2+3",
    "4f97+6 41b+19 7+19 826+5 2+29 2+8 d746+1e 7+5 Lepcha 1c00+37 4+e 4+2 Limbu 1900+1e 2+b 5+b 5 4+b Linear_A 10600+136 a+15 b+7 Linear_B",
    "10000+b 2+19 2+12 2+1 2+e 3+d 23+7a Lisu a4d0+2f 7ab1 Lycian 10280+1c Lydian 10920+19 6 Mahajani 11150+26 Makasar 11ee0+18 Malayalam",
    "d00+c 2+2 2+32 2+2 2+5 5+f 3+19 Mandaic 840+1b 3 Manichaean 10ac0+26 5+b Marchen 11c70+1f 3+15 2+d Masaram_Gondi 11d00+6 2+1 2+2b 4 2+1",
    "2+8 9+9 Medefaidrin 16e40+5a Meetei_Mayek aae0+16 ca+2d 3+9 Mende_Kikakui 1e800+c4 3+f Meroitic_Cursive 109a0+17 5+13 3+2d",
    "Meroitic_Hieroglyphs 10980+1f Miao 16f00+4a 5+38 8+10 Modi 11600+44 c+9 Mongolian 1800+1 3 2+13 7+58 8+2a fdb6+c Mro 16a40+1e 2+9 5+1",
    "Multani 11280+6 2 2+3 2+e 2+a Myanmar 1000+9f 9941+1e 62+1f 6c51+13 Nabataean 10880+1e 9+8 Nag_Mundari 1e4d0+29 Nandinagari 119a0+7 3+2d",
    "3+a New_Tai_Lue 1980+2b 5+19 7+a 4+1 Newa 11400+5b 2+4 Nko 7c0+3a 3+2 Nushu 16fe1 418f+18b Nyiakeng_Puachue_Hmong 1e100+2c 4+d 3+9 5+1",
    "Ogham 1680+1c Ol_Chiki 1c50+2f Ol_Onal 1e5d0+2a 5 Old_Hungarian 10c80+32 e+32 8+5 Old_Italic 10300+23 a+2 Old_North_Arabian 10a80+1f",
    "Old_Permic 10350+2a Old_Persian 103a0+23 5+d Old_Sogdian 10f00+27 Old_South_Arabian 10a60+1f Old_Turkic 10c00+48 Old_Uyghur 10f70+19",
    "Oriya b01+2 2+7 3+1 3+15 2+6 2+1 2+4 3+8 3+1 3+2 8+2 5+1 2+4 3+11 Osage 104b0+23 5+23 Osmanya 10480+1d 3+9 Pahawh_Hmong 16b00+45 b+9 2+6",
    "2+14 6+12 Palmyrene 10860+1f Pau_Cin_Hau 11ac0+38 Phags_Pa a840+37 Phoenician 10900+1b 4 Psalter_Pahlavi 10b80+11 8+3 d+6 Rejang a930+23",
    "c Runic 16a0+4a 4+a Samaritan 800+2d 3+e Saurashtra a880+45 9+b Sharada 11180+5f 981+7 Shavian 10450+2f Siddham 11580+35 3+25 Sidetic",
    "10940+19 SignWriting 1d800+28b 10+4 2+e Sinhala d81+2 2+11 4+17 2+8 2 3+6 4 5+5 2 2+7 7+9 3+2 103ed+13 Sogdian 10f30+29 Sora_Sompeng",
    "110d0+18 8+9 Soyombo 11a50+52 Sundanese 1b80+3f 101+7 Sunuwar 11bc0+21 f+9 Syloti_Nagri a800+2c Syriac 700+d 2+3b 3+2 111+a Tagalog",
    "1700+15 a Tagbanwa 1760+c 2+2 2+1 Tai_Le 1950+1d 3+4 Tai_Tham 1a20+3e 2+1c 3+a 7+9 7+d Tai_Viet aa80+42 19+4 Tai_Yo 1e6c0+1e 2+15 9+1",
    "Takri 11680+39 7+9 Tamil b82+1 2+5 4+2 2+3 4+1 2 2+1 4+1 4+2 4+b 5+4 4+2 2+3 3 7 f+14 113c6+31 e Tangsa 16a70+4e 2+9 Tangut 16fe0",
    "20+1aff 201+1e 62+72 Telugu c00+c 2+2 2+16 2+f 3+8 2+2 2+3 8+1 2+2 2+1 3+3 3+9 8+8 Thaana 780+31 Thai e01+39 6+1b Tibetan f00+47 2+23",
    "5+26 2+23 2+e 2+6 5+1 Tifinagh 2d30+37 8+1 f Tirhuta 11480+47 9+9 Todhri 105c0+33 Tolong_Siki 11db0+2b 5+9 Toto 1e290+1e Tulu_Tigalari",
    "11380+9 2 3 2+25 2+9 2 3 2+3 2+9 2+1 9+1 Ugaritic 10380+1d 2 Vai a500+12b Vithkuqi 10570+a 2+e 2+6 2+1 2+a 2+e 2+6 2+1 Wancho 1e2c0+39 6",
    "Warang_Citi 118a0+52 d Yezidi 10e80+29 2+2 3+1 Yi a000+48c 4+36 Zanabazar_Square 11a00+47"]

/-- The table of the script that a name means, in any spelling. -/
def find? (name : List Char) : Option (Array CodeRange) :=
  let plain := Category.plainName name
  (tables.find? fun entry => Category.plainName entry.1.toList == plain).map (·.2)

end Script

end ScriptEngine
