import Playground.Text.Lines

/-!
# The example program

The program a new playground starts with.  It shows what the compile-time printer
can print.
-/

namespace Playground

/-- The lines of the example program. -/
def exampleLines : List String := [
  "#include <ctp/ctp.hpp>",
  "",
  "struct FooBar \x7b",
  "\tint i;",
  "\tfloat j;",
  "\x7d;",
  "",
  "template<>",
  "struct ctp::formatter<FooBar> \x7b",
  "\tstatic constexpr auto format(const FooBar& obj) \x7b",
  "\t\treturn std::tuple\x7b\"(.i = \x7b\x7d, .j = \x7b\x7d)\", obj.i, obj.j\x7d;",
  "\t\x7d",
  "\x7d;",
  "",
  "constexpr auto test() \x7b",
  "\tctp::print(\"Integral:\");",
  "\tctp::print(true, 1, -2, std::numeric_limits<uint64_t>::max());",
  "",
  "\tctp::print(\"\\nFloating point:\");",
  "\tctp::print(1.22F, std::numeric_limits<float>::infinity());",
  "\tctp::printf(\"\x7b:.2f\x7d\\n\", 1.22F);",
  "",
  "\tctp::print(\"\\nArray:\");",
  "\tstd::array<int, 5> arr\x7b1, 5, 3, 2, 4\x7d;",
  "\tctp::print(arr);",
  "\tctp::printf(\"Third element is: \x7b[2]\x7d\\n\", arr);",
  "",
  "\tctp::print(\"\\nView:\");",
  "\tctp::print(ctp::view(arr.data() + 1, 3));",
  "",
  "\tctp::print(\"\\nTuple:\");",
  "\tstd::tuple<int, double> tuple\x7b1, 2.5\x7d;",
  "\tctp::print(tuple);",
  "\tctp::printf(\"Second element is: \x7b[1]\x7d\\n\", tuple);",
  "",
  "\tctp::print(\"\\nPair:\");",
  "\tstd::pair<int, double> pair\x7b-3.5, 2\x7d;",
  "\tctp::print(pair);",
  "",
  "\tctp::print(\"\\nTypes:\");",
  "\tctp::printf(\"Pair \x27\x7b\x7d\x27 is not an alias of tuple \x27\x7b\x7d\x27.\\n\", ctp::type<decltype(pair)>\x7b\x7d, ctp::type\x7btuple\x7d);",
  "\tctp::printf(\"But both have the same size: \x7b\x7d - \x7b\x7d\\n\", sizeof(pair), sizeof(tuple));",
  "",
  "\tctp::print(\"\\nUser-defined type:\");",
  "\tFooBar foobar\x7b3, -1.25F\x7d;",
  "\tctp::print(ctp::type<FooBar>\x7b\x7d, foobar);",
  "",
  "\tctp::printf(ctp::stderr, u\"\\n\\tFatal \");",
  "\tctp::print(ctp::stderr, U\"success! :)\");",
  "",
  "\t[[maybe_unused]] constexpr auto i = ctp::print(\"Print examples:\\n\");",
  "",
  "\treturn true;",
  "\x7d",
  "",
  "constexpr auto t = test();"]

/-- The example program. -/
def exampleProgram : String := Text.unlines exampleLines

end Playground
