import Playground.Text.Lines

/-!
# The bundled header

The compile-time printer header that takes the place of an include directive, one
string per line.
-/

namespace Playground

/-- The lines of the bundled header. -/
def bundledHeaderLines : List String := [
  "/*",
  " *  Compile-Time Printer",
  " *  ----------------------------------------------------------",
  " *  \x43opyright 2021 Toni Neubert. \x41ll rights reserved.",
  " *",
  " *  Distributed under the Boost Software \x4cicense, Version 1.0.",
  " *  (See accompanying file \x4cICENSE.txt or copy at http://www.boost.org/\x4cICENSE_1_0.txt)",
  " */",
  "#ifndef COMPILE_TIME_PRINTER_HPP_INCLUDE",
  "#define COMPILE_TIME_PRINTER_HPP_INCLUDE",
  "",
  "// If defined, don\x27t print anything.",
  "// #define CTP_QUIET",
  "// If defined, don\x27t even print version indicator.",
  "// #define CTP_DEAD_QUIET",
  "",
  "#if defined(CTP_DEAD_QUIET) && !defined(CTP_QUIET)",
  "    #define CTP_QUIET",
  "#endif",
  "",
  "#if defined(__clang__) || !defined(__GNUC__) || defined(__INTEL_COMPILER) || __cplusplus < 201703L",
  "    #if !defined(CTP_QUIET)",
  "        #define CTP_QUIET",
  "        #error \"Only GCC >= 7, STD >= C++17 is supported.\"",
  "    #endif",
  "#endif",
  "",
  "#include <array>",
  "#include <string_view>",
  "#include <tuple>",
  "",
  "#include <cmath>",
  "#include <cstddef>",
  "#include <cstdint>",
  "",
  "namespace ctp \x7b",
  "",
  "/**",
  " * Represents a file descriptor.",
  " */",
  "struct file_descriptor \x7b",
  "\tsize_t value;",
  "\tconstexpr bool operator==(const file_descriptor& other) const;",
  "\x7d;",
  "",
  "/// Standard output stream (stdout).",
  "inline constexpr file_descriptor stdout\x7b1\x7d;",
  "",
  "/// Standard error output stream (stderr).",
  "inline constexpr file_descriptor stderr\x7b2\x7d;",
  "",
  "/**",
  " * Prints all arguments in a simple, standardized format.",
  " * Each argument is separated by one space, ending with a line break.",
  " * @param args - the arguments to print.",
  " */",
  "template<typename... Args>",
  "constexpr auto print(Args&&... args);",
  "",
  "/**",
  " * Prints all arguments in a simple, standardized format to a specific file  descriptor.",
  " * Each argument is separated by one space, ending with a line break.",
  " * @param fd - the file descriptor",
  " * @param args - the arguments to print",
  " */",
  "template<typename FileDescriptor,",
  "         typename... Args,",
  "         std::enable_if_t<std::is_same_v<std::decay_t<FileDescriptor>, file_descriptor>>* = nullptr>",
  "constexpr auto print(FileDescriptor&& fd, Args&&... args);",
  "",
  "/**",
  " * Formats and prints all arguments in the desired format.",
  " * @param args - the arguments to format and print",
  " */",
  "template<typename... Args>",
  "constexpr auto printf(std::string_view format = \"\", Args&&... args);",
  "",
  "/**",
  " * Formats and prints all arguments in the desired format to a specific file descriptor.",
  " * @param fd - the file descriptor",
  " * @param args - the arguments to format and print",
  " */",
  "template<typename FileDescriptor,",
  "         typename... Args,",
  "         std::enable_if_t<std::is_same_v<std::decay_t<FileDescriptor>, file_descriptor>>* = nullptr>",
  "constexpr auto printf(FileDescriptor&& fd, std::string_view format = \"\", Args&&... args);",
  "",
  "/**",
  " * For user-defined types, the format function of the specialized formatter<T> struct template is used.",
  " * Provide a function \x60constexpr auto format(T);\x60 returning a tuple like object. The first element must be a format",
  " * string followed by the arguments.",
  " * @tparam T - the user-defined type",
  " */",
  "template<typename T>",
  "struct formatter;",
  "",
  "/**",
  " * Helper to print a contiguous range.",
  " * @tparam T - the value type of the range",
  " */",
  "template<typename T>",
  "class view;",
  "",
  "/**",
  " * Helper to print the types of arguments rather than the values.",
  " * @tparam Ts - the types to print",
  " */",
  "template<typename... Ts>",
  "struct type;",
  "",
  "/**",
  " * Helper to generate extra noise to force the compiler not to cache the evaluation of a print statement.",
  " * Should be taken by reference.",
  " */",
  "struct noise \x7b\x7d;",
  "",
  "namespace detail \x7b",
  "",
  "/// Forward a value.",
  "template<typename T, std::enable_if_t<!std::is_invocable_v<T>>* = nullptr>",
  "constexpr T forward(T&& value) \x7b",
  "\treturn value;",
  "\x7d",
  "",
  "/// Forward the return value of a function.",
  "template<typename T, typename... Ts, std::enable_if_t<std::is_invocable_v<T, Ts...>>* = nullptr>",
  "constexpr auto forward(T&& func, Ts&&... args) \x7b",
  "\treturn func(std::forward<Ts>(args)...);",
  "\x7d",
  "",
  "\x7d    // namespace detail",
  "",
  "/**",
  " * Helper to use print/printf in static_assert and template parameters.",
  " * The expression/function will be instantiated as constexpr variable, to overcome compile errors.",
  " * @tparam ExprFunc - the expression or function which should be instantiated",
  " * @tparam Args - the arguments for the function",
  " */",
  "template<auto ExprFunc, auto... Args>",
  "inline constexpr auto forward = detail::forward(std::forward<decltype(ExprFunc)>(ExprFunc),",
  "                                                std::forward<decltype(Args)>(Args)...);",
  "",
  "namespace detail \x7b",
  "",
  "inline constexpr auto protocol_version = 1;",
  "",
  "enum class Indicator : uint32_t \x7b",
  "\tVersion = 32,",
  "\tStartOut = 33,",
  "\tStartErr = 34,",
  "\tStartOutFormat = 35,",
  "\tStartErrFormat = 36,",
  "\tEnd = 37,",
  "\tNaNFloat = 128,",
  "\tPositiveInfinityFloat = 129,",
  "\tNegativeInfinityFloat = 130,",
  "\tNegativeFloat = 131,",
  "\tPositiveFloat = 132,",
  "\tFractionFloat = 133,",
  "\tPositiveInteger = 134,",
  "\tNegativeInteger = 135,",
  "\tType = 136,",
  "\tArrayBegin = 138,",
  "\tArrayEnd = 139,",
  "\tStringBegin = 140,",
  "\tStringEnd = 141,",
  "\tTupleBegin = 142,",
  "\tTupleEnd = 143,",
  "\tCustomFormatBegin = 144,",
  "\tCustomFormatEnd = 145,",
  "\x7d;",
  "",
  "template<typename T, std::enable_if_t<std::is_arithmetic_v<T>>* = nullptr>",
  "constexpr __uint128_t to_abs_int(T value) \x7b",
  "\tif constexpr (std::is_signed_v<T>) \x7b",
  "\t\treturn static_cast<__uint128_t>(std::abs(value));",
  "\t\x7d else \x7b",
  "\t\treturn static_cast<__uint128_t>(value);",
  "\t\x7d",
  "\x7d",
  "",
  "#pragma GCC diagnostic push",
  "#pragma GCC diagnostic ignored \"-Wshift-count-overflow\"",
  "",
  "#ifdef CTP_QUIET",
  "#define CTP_INTERNAL_PRINT(x, y)              \\",
  "\t\x7b                                         \\",
  "\t\t[[maybe_unused]] auto unused_x = (x); \\",
  "\t\t[[maybe_unused]] auto unused_y = (y); \\",
  "\t\x7d",
  "#else",
  "#define CTP_INTERNAL_PRINT(x, y) \\",
  "\t\x7b [[maybe_unused]] auto unused = (x) << static_cast<uint32_t>(y); \x7d",
  "#endif",
  "",
  "/// Print integer values.",
  "template<typename T, typename... Args, std::enable_if_t<std::is_integral_v<T>>* = nullptr>",
  "constexpr void print_value(int& /*unused*/, T value, Args&&... /*unused*/) \x7b",
  "\tif constexpr (std::is_signed_v<T>) \x7b",
  "\t\tif (value < 0) \x7b",
  "\t\t\tCTP_INTERNAL_PRINT(to_abs_int(value), Indicator::NegativeInteger);",
  "\t\t\x7d else \x7b",
  "\t\t\tCTP_INTERNAL_PRINT(to_abs_int(value), Indicator::PositiveInteger);",
  "\t\t\x7d",
  "\t\x7d else \x7b",
  "\t\tCTP_INTERNAL_PRINT(to_abs_int(value), Indicator::PositiveInteger);",
  "\t\x7d",
  "\x7d",
  "",
  "/// Print floating point values.",
  "template<typename T, typename... Args, std::enable_if_t<std::is_floating_point_v<T>>* = nullptr>",
  "constexpr void print_value(int& one, T value, Args&&... /*unused*/) \x7b",
  "\tif (value != value) \x7b",
  "\t\tCTP_INTERNAL_PRINT(one, Indicator::NaNFloat);",
  "\t\treturn;",
  "\t\x7d",
  "\tif (value < 0) \x7b",
  "\t\tif (std::abs(value) == std::numeric_limits<long double>::infinity()) \x7b",
  "\t\t\tCTP_INTERNAL_PRINT(one, Indicator::NegativeInfinityFloat);",
  "\t\t\treturn;",
  "\t\t\x7d",
  "\t\tCTP_INTERNAL_PRINT(to_abs_int(value), Indicator::NegativeFloat);",
  "\t\x7d else if (value >= 0) \x7b",
  "\t\tif (value == std::numeric_limits<long double>::infinity()) \x7b",
  "\t\t\tCTP_INTERNAL_PRINT(one, Indicator::PositiveInfinityFloat);",
  "\t\t\treturn;",
  "\t\t\x7d",
  "\t\tCTP_INTERNAL_PRINT(to_abs_int(value), Indicator::PositiveFloat);",
  "\t\x7d",
  "\tlong double decimal = value;",
  "\tauto fraction = std::abs(decimal) - std::floor(std::abs(decimal));",
  "\tfraction *= std::pow(10.0L, std::numeric_limits<long double>::digits10);",
  "\tCTP_INTERNAL_PRINT(to_abs_int(fraction), Indicator::FractionFloat);",
  "\x7d",
  "",
  "/// Print contiguous sequences of not char-like objects.",
  "template<",
  "  typename T,",
  "  typename... Args,",
  "  std::enable_if_t<!std::is_convertible_v<T, std::string_view> && sizeof(decltype(view(std::declval<T>())))>* = nullptr>",
  "constexpr void print_value(int& one, T&& value, Args&&... args) \x7b",
  "\tCTP_INTERNAL_PRINT(one, Indicator::ArrayBegin);",
  "\tfor (auto v : view(value)) \x7b",
  "\t\tprint_value(one, v, std::forward<Args>(args)..., v, value);",
  "\t\x7d",
  "\tCTP_INTERNAL_PRINT(one, Indicator::ArrayEnd);",
  "\x7d",
  "",
  "/// Print contiguous sequence of char-like objects.",
  "template<typename T, typename... Args, std::enable_if_t<std::is_convertible_v<T, std::string_view>>* = nullptr>",
  "constexpr void print_value(int& one, T value, Args&&... args) \x7b",
  "\tCTP_INTERNAL_PRINT(one, Indicator::StringBegin);",
  "\tfor (auto v : std::string_view\x7bvalue\x7d) \x7b",
  "\t\tprint_value(one, v, std::forward<Args>(args)..., v, value);",
  "\t\x7d",
  "\tCTP_INTERNAL_PRINT(one, Indicator::StringEnd);",
  "\x7d",
  "",
  "/// Print tuple like.",
  "template<size_t... Is, typename T, typename... Args>",
  "constexpr void print_value(int& one, std::index_sequence<Is...> /*unused*/, T&& tuple, Args&&... args) \x7b",
  "\tCTP_INTERNAL_PRINT(one, Indicator::TupleBegin);",
  "\t(print_value(one, std::get<Is>(std::forward<T>(tuple)), std::forward<Args>(args)..., Is, Is...), ...);",
  "\tCTP_INTERNAL_PRINT(one, Indicator::TupleEnd);",
  "\x7d",
  "",
  "template<typename T>",
  "struct is_not_std_array : std::true_type \x7b\x7d;",
  "",
  "template<typename T, size_t N>",
  "struct is_not_std_array<std::array<T, N>> : std::false_type \x7b\x7d;",
  "",
  "template<typename T>",
  "struct is_complete \x7b",
  "private:",
  "\ttemplate<typename U>",
  "\tstatic int is_complete_helper(int (*)[sizeof(U)]);",
  "\ttemplate<typename>",
  "\tstatic char is_complete_helper(...);",
  "",
  "public:",
  "\tstatic constexpr bool value = sizeof(is_complete_helper<T>(0)) != 1;",
  "\x7d;",
  "",
  "template<typename T>",
  "struct is_tuple_like :",
  "  std::integral_constant<bool, is_complete<std::tuple_size<T>>::value && is_not_std_array<T>::value> \x7b\x7d;",
  "",
  "// Unpack tuple like.",
  "template<typename T, typename... Args, std::enable_if_t<is_tuple_like<std::decay_t<T>>::value>* = nullptr>",
  "constexpr void print_value(int& one, T&& tuple, Args&&... args) \x7b",
  "\tprint_value(one,",
  "\t            std::make_index_sequence<std::tuple_size_v<std::decay_t<T>>>\x7b\x7d,",
  "\t            std::forward<T>(tuple),",
  "\t            std::forward<Args>(args)...);",
  "\x7d",
  "",
  "/// Print type.",
  "template<typename... Ts, typename... Args>",
  "constexpr void print_value(int& one, type<Ts...>, Args&&... /*unused*/) \x7b",
  "\tCTP_INTERNAL_PRINT(one, Indicator::Type);",
  "\x7d",
  "",
  "/// Generate noise.",
  "template<typename... Args>",
  "constexpr void print_value(int&, const noise&, Args&&... /*unused*/) \x7b\x7d",
  "",
  "/// Print with user-defined formatter.",
  "template<typename T,",
  "         typename... Args,",
  "         std::enable_if_t<sizeof(std::string_view\x7bstd::get<0>(std::declval<ctp::formatter<std::decay_t<T>>>().format(",
  "                            std::declval<T>()))\x7d) == 16>* = nullptr>",
  "constexpr void print_value(int& one, T&& value, Args&&... args) \x7b",
  "\tCTP_INTERNAL_PRINT(one, Indicator::CustomFormatBegin);",
  "\tprint_value(one, formatter<std::decay_t<T>>\x7b\x7d.format(value), std::forward<Args>(args)...);",
  "\tCTP_INTERNAL_PRINT(one, Indicator::CustomFormatEnd);",
  "\x7d",
  "",
  "/// Print start indicator output stream and if first argument is the format string.",
  "template<bool Format, typename Arg, typename... Args>",
  "constexpr void print_start_indicator(int& one, Arg&& arg, Args&&...) \x7b",
  "\tif constexpr (std::is_same_v<std::decay_t<Arg>, file_descriptor>) \x7b",
  "\t\tif (arg == stderr) \x7b",
  "\t\t\tif (Format) \x7b",
  "\t\t\t\tCTP_INTERNAL_PRINT(one, Indicator::StartErrFormat);",
  "\t\t\t\x7d else \x7b",
  "\t\t\t\tCTP_INTERNAL_PRINT(one, Indicator::StartErr);",
  "\t\t\t\x7d",
  "\t\t\treturn;",
  "\t\t\x7d",
  "\t\x7d",
  "\tif (Format) \x7b",
  "\t\tCTP_INTERNAL_PRINT(one, Indicator::StartOutFormat);",
  "\t\x7d else \x7b",
  "\t\tCTP_INTERNAL_PRINT(one, Indicator::StartOut);",
  "\t\x7d",
  "\x7d",
  "",
  "/// Print end indicator.",
  "template<typename... Args>",
  "constexpr auto print_end_indicator(int one, Args&&... /*unused*/) \x7b",
  "\tCTP_INTERNAL_PRINT(one, Indicator::End);",
  "\treturn one;",
  "\x7d",
  "",
  "/// Trigger unused variable instead of fpermissive warning to be compatible to other compiler in the future.",
  "#pragma GCC diagnostic push",
  "#pragma GCC diagnostic warning \"-Wunused-variable\"",
  "template<int Version>",
  "constexpr auto print_protocol_version() \x7b",
  "#ifndef CTP_DEAD_QUIET",
  "\tint version = Version;",
  "#endif",
  "\treturn Version;",
  "\x7d",
  "#pragma GCC diagnostic pop",
  "",
  "inline constexpr auto indicate_protocol_version = print_protocol_version<protocol_version>();",
  "",
  "#pragma GCC diagnostic pop",
  "",
  "inline constexpr struct separator_t \x7b",
  "\x7d separator;",
  "",
  "/// Unpack and print each argument.",
  "template<size_t... Is, typename... Args>",
  "constexpr void print_helper(int& one, std::index_sequence<Is...> /*unused*/, Args&&... args) \x7b",
  "\t// First parameter (unpacked by ...) is the value to print.",
  "\t// The separator is used to better parse the type of the first parameter from the variadic template list. All other",
  "\t// parameters and the index sequence are unused but otherwise same arguments are mentioned only once.",
  "\t(print_value(one, std::forward<Args>(args), separator, std::forward<Args>(args)..., Is, Is...), ...);",
  "\x7d",
  "",
  "template<bool Format,",
  "         typename Arg = ctp::noise,",
  "         typename... Args,",
  "         std::enable_if_t<!std::is_same_v<std::decay_t<Arg>, file_descriptor> ||",
  "                          (std::is_same_v<std::decay_t<Arg>, file_descriptor> && sizeof...(Args) > 0)>* = nullptr>",
  "constexpr auto print(Arg&& arg = \x7b\x7d, Args&&... args) \x7b",
  "\tint one = 1;",
  "\tprint_start_indicator<Format>(one, std::forward<Arg>(arg), std::forward<Args>(args)...);",
  "",
  "\t/// Skip first argument if file descriptor.",
  "\tif constexpr (std::is_same_v<std::decay_t<Arg>, file_descriptor>) \x7b",
  "\t\tprint_helper(one, std::make_index_sequence<sizeof...(Args)>\x7b\x7d, std::forward<Args>(args)...);",
  "\t\x7d else \x7b",
  "\t\tprint_helper(",
  "\t\t  one, std::make_index_sequence<sizeof...(Args) + 1>\x7b\x7d, std::forward<Arg>(arg), std::forward<Args>(args)...);",
  "\t\x7d",
  "",
  "\treturn print_end_indicator(one, std::forward<Arg>(arg), std::forward<Args>(args)...);",
  "\x7d",
  "",
  "\x7d    // namespace detail",
  "",
  "constexpr bool file_descriptor::operator==(const file_descriptor& other) const \x7b",
  "\treturn value == other.value;",
  "\x7d",
  "",
  "template<typename... Args>",
  "constexpr auto print(Args&&... args) \x7b",
  "\treturn detail::print<false>(std::forward<Args>(args)...);",
  "\x7d",
  "",
  "template<typename FileDescriptor,",
  "         typename... Args,",
  "         std::enable_if_t<std::is_same_v<std::decay_t<FileDescriptor>, file_descriptor>>*>",
  "constexpr auto print(FileDescriptor&& stream, Args&&... args) \x7b",
  "\treturn detail::print<false>(std::forward<FileDescriptor>(stream), std::forward<Args>(args)...);",
  "\x7d",
  "",
  "template<typename FileDescriptor,",
  "         typename... Args,",
  "         std::enable_if_t<std::is_same_v<std::decay_t<FileDescriptor>, file_descriptor>>*>",
  "constexpr auto printf(FileDescriptor&& stream, std::string_view format, Args&&... args) \x7b",
  "\treturn detail::print<true>(std::forward<FileDescriptor>(stream), format, std::forward<Args>(args)...);",
  "\x7d",
  "",
  "template<typename... Args>",
  "constexpr auto printf(std::string_view format, Args&&... args) \x7b",
  "\treturn detail::print<true>(stdout, format, std::forward<Args>(args)...);",
  "\x7d",
  "",
  "template<typename T>",
  "class view \x7b",
  "public:",
  "\ttemplate<typename, typename = void>",
  "\tstruct has_size_and_data : std::false_type \x7b\x7d;",
  "",
  "\ttemplate<typename U>",
  "\tstruct has_size_and_data<",
  "\t  U,",
  "\t  std::void_t<decltype(std::size(std::declval<U>())), decltype(std::data(std::declval<U>()))>> : std::true_type \x7b\x7d;",
  "",
  "\tconstexpr view() = default;",
  "",
  "\ttemplate<size_t N>",
  "\texplicit constexpr view(const std::array<T, N>& arr) : data_\x7barr.data()\x7d, size_\x7barr.size()\x7d \x7b\x7d",
  "",
  "\ttemplate<size_t N>",
  "\texplicit constexpr view(const T (&arr)[N]) : data_\x7barr\x7d, size_\x7bN\x7d \x7b\x7d",
  "",
  "\ttemplate<typename U, std::enable_if_t<has_size_and_data<U>::value>* = nullptr>",
  "\texplicit constexpr view(const U& arr) : data_(arr.data()), size_\x7barr.size()\x7d \x7b\x7d",
  "",
  "\ttemplate<typename U, std::enable_if_t<std::is_integral_v<U>>* = nullptr>",
  "\tconstexpr view(const T* first, U&& size) : data_\x7bfirst\x7d, size_\x7bstatic_cast<size_t>(size)\x7d \x7b\x7d",
  "",
  "\tconstexpr view(const T* first, const T* last) : data_\x7bfirst\x7d, size_\x7bstatic_cast<size_t>(last - first)\x7d \x7b\x7d",
  "",
  "\tconstexpr auto begin() const \x7b",
  "\t\treturn data_;",
  "\t\x7d",
  "",
  "\tconstexpr auto end() const \x7b",
  "\t\treturn data_ + size_;",
  "\t\x7d",
  "",
  "private:",
  "\tconst T* data_\x7b\x7d;",
  "\tsize_t size_\x7b\x7d;",
  "\x7d;",
  "",
  "template<typename T, size_t N>",
  "view(std::array<T, N>) -> view<T>;",
  "",
  "template<typename T, size_t N>",
  "view(T (&)[N]) -> view<T>;",
  "",
  "template<typename T>",
  "view(T) -> view<std::remove_pointer_t<decltype(std::data(std::declval<T>()))>>;",
  "",
  "template<typename T>",
  "view(T*, T*) -> view<T>;",
  "",
  "template<typename T, typename U>",
  "view(T*, U) -> view<T>;",
  "",
  "template<typename... Ts>",
  "struct type \x7b",
  "\tconstexpr type() = default;",
  "",
  "\tconstexpr type(Ts&&... /*unused*/) \x7b\x7d",
  "\x7d;",
  "",
  "template<typename... Ts>",
  "type(Ts&&...) -> type<Ts...>;",
  "",
  "\x7d    // namespace ctp",
  "",
  "#endif    // COMPILE_TIME_PRINTER_HPP_INCLUDE"]

/-- The bundled header. -/
def bundledHeader : String := Text.unlines bundledHeaderLines

end Playground
